/-!
# Colours and weights of text

An escape sequence of **rendition** parameters changes how the text after it looks.  A `Look` is
what such sequences add up to; `Look.take` reads the parameters of one more, and `Look.sequence` is
the sequence that brings a look about.
-/

namespace TreeQuery.Terminal

/-- **How text looks**: its weight and other attributes, each by its parameter, the parameter of its
underline, and its colours, each by the parameters that follow its own. -/
structure Look where
  attributes : List Nat := []
  underline : Option (List Nat) := none
  foreground : Option (List Nat) := none
  background : Option (List Nat) := none
  underlineColour : Option (List Nat) := none
  deriving DecidableEq, Repr

namespace Look

def plain : Look := {}

def isPlain (l : Look) : Bool := l == plain

def hidesBlanks (l : Look) : Bool :=
  !l.attributes.contains 7 && l.background.isNone && l.underline.isNone

def attributeOrder : List Nat := [1, 2, 3, 5, 6, 7, 8, 9]

def adding (l : Look) (a : Nat) : Look :=
  { l with attributes := a :: l.attributes.filter (· != a) }

def without (l : Look) (attributes : List Nat) : Look :=
  { l with attributes := l.attributes.filter fun a => !attributes.contains a }

/-- The parameters of a colour at the front of parameters: one of a palette, or three shares of
light.  The number of parameters comes with it. -/
def colour? : List Nat → Option (List Nat × Nat)
  | 5 :: n :: _ => some ([5, n], 2)
  | 2 :: r :: g :: b :: _ => some ([2, r, g, b], 4)
  | _ => none

/-- The look after the parameters of a sequence, each with whether a colon follows it.  `fuel`
bounds the steps. -/
def takeParameters (l : Look) (fuel : Nat) (ps : List (Nat × Bool)) : Look :=
  match fuel with
  | 0 => l
  | fuel + 1 =>
    match ps with
    | [] => l
    | (p, joined) :: rest =>
      let coloured (put : List Nat → Look) : Look :=
        match colour? (rest.map Prod.fst) with
        | some (c, n) => (put (p :: c)).takeParameters fuel (rest.drop n)
        | none => l.takeParameters fuel rest
      if p = 0 then plain.takeParameters fuel rest
      else if p = 4 then
        match joined, rest with
        | true, (kind, _) :: more =>
          if kind = 0 then ({ l with underline := none }).takeParameters fuel more
          else if kind = 1 then ({ l with underline := some [4] }).takeParameters fuel more
          else if kind ≤ 5 then ({ l with underline := some [4, kind] }).takeParameters fuel more
          else l.takeParameters fuel rest
        | _, _ => ({ l with underline := some [4] }).takeParameters fuel rest
      else if attributeOrder.contains p then (l.adding p).takeParameters fuel rest
      else if p = 22 then (l.without [1, 2]).takeParameters fuel rest
      else if p = 24 then ({ l with underline := none }).takeParameters fuel rest
      else if p = 25 then (l.without [5, 6]).takeParameters fuel rest
      else if p = 23 ∨ (27 ≤ p ∧ p ≤ 29) then (l.without [p - 20]).takeParameters fuel rest
      else if (30 ≤ p ∧ p ≤ 37) ∨ (90 ≤ p ∧ p ≤ 97) then
        ({ l with foreground := some [p] }).takeParameters fuel rest
      else if (40 ≤ p ∧ p ≤ 47) ∨ (100 ≤ p ∧ p ≤ 107) then
        ({ l with background := some [p] }).takeParameters fuel rest
      else if p = 38 then coloured fun c => { l with foreground := some c }
      else if p = 48 then coloured fun c => { l with background := some c }
      else if p = 58 then coloured fun c => { l with underlineColour := some c }
      else if p = 39 then ({ l with foreground := none }).takeParameters fuel rest
      else if p = 49 then ({ l with background := none }).takeParameters fuel rest
      else if p = 59 then ({ l with underlineColour := none }).takeParameters fuel rest
      else l.takeParameters fuel rest

/-- **The look after a sequence** with the given parameters, each with whether a colon follows it.
-/
def take (l : Look) (ps : List (Nat × Bool)) : Look :=
  if ps.isEmpty then plain else l.takeParameters (ps.length + 1) ps

def numbers (mark : Char) (ns : List Nat) : List Char :=
  [mark].intercalate (ns.map (Nat.toDigits 10))

def sequenceOf (parameters : List (List Char)) : List Char :=
  '\x1b' :: '[' :: ([';'].intercalate parameters ++ ['m'])

def reset : List Char := sequenceOf []

def sequence (l : Look) : List Char :=
  let colours := [l.foreground, l.background, l.underlineColour].filterMap id
  sequenceOf ((attributeOrder.filter l.attributes.contains).map (Nat.toDigits 10) ++
    (l.underline.toList.map (numbers ':')) ++ colours.map (numbers ';'))

end Look

end TreeQuery.Terminal
