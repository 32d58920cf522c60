import TreeQuery.Text.Lower

/-!
# Comparing regardless of case

Names are often compared regardless of the case of their letters.  Each character stands for one of
the characters that differ from it only in case: the one that the Unicode database gives as its
simple case folding.  Two texts are alike regardless of case when their folded forms are equal.
-/

namespace TreeQuery.Text

/-- The characters that do not stand for their lower case, as runs `(first, last, shift)`: each code
point from `first` to `last` stands for the one `shift` further on. -/
def foldRuns : List (Nat × Nat × Int) := [
  (0xB5, 0xB5, 775), (0x130, 0x130, 0), (0x17F, 0x17F, -268), (0x345, 0x345, 116),
  (0x3C2, 0x3C2, 1), (0x3D0, 0x3D0, -30), (0x3D1, 0x3D1, -25), (0x3D5, 0x3D5, -15),
  (0x3D6, 0x3D6, -22), (0x3F0, 0x3F0, -54), (0x3F1, 0x3F1, -48), (0x3F5, 0x3F5, -64),
  (0x13A0, 0x13F5, 0), (0x13F8, 0x13FD, -8), (0x1C80, 0x1C80, -6222), (0x1C81, 0x1C81, -6221),
  (0x1C82, 0x1C82, -6212), (0x1C83, 0x1C84, -6210), (0x1C85, 0x1C85, -6211),
  (0x1C86, 0x1C86, -6204), (0x1C87, 0x1C87, -6180), (0x1C88, 0x1C88, 35267), (0x1E9B, 0x1E9B, -58),
  (0x1FBE, 0x1FBE, -7173), (0xAB70, 0xABBF, -38864)]

/-- A character regardless of case. -/
def foldChar (c : Char) : Char :=
  let n := c.toNat
  match foldRuns.find? fun (a, b, _) => a ≤ n && n ≤ b with
  | some (_, _, shift) => Char.ofNat ((n : Int) + shift).toNat
  | none => lowerChar c

/-- The characters that become several when case is disregarded in full, but for those of
`iotaFolds`. -/
def longFolds : List (Nat × List Nat) := [
  (0xDF, [0x73, 0x73]), (0x130, [0x69, 0x307]), (0x149, [0x2BC, 0x6E]), (0x1F0, [0x6A, 0x30C]),
  (0x390, [0x3B9, 0x308, 0x301]), (0x3B0, [0x3C5, 0x308, 0x301]), (0x587, [0x565, 0x582]),
  (0x1E96, [0x68, 0x331]), (0x1E97, [0x74, 0x308]), (0x1E98, [0x77, 0x30A]),
  (0x1E99, [0x79, 0x30A]), (0x1E9A, [0x61, 0x2BE]), (0x1E9E, [0x73, 0x73]),
  (0x1F50, [0x3C5, 0x313]), (0x1F52, [0x3C5, 0x313, 0x300]), (0x1F54, [0x3C5, 0x313, 0x301]),
  (0x1F56, [0x3C5, 0x313, 0x342]), (0x1FB2, [0x1F70, 0x3B9]), (0x1FB3, [0x3B1, 0x3B9]),
  (0x1FB4, [0x3AC, 0x3B9]), (0x1FB6, [0x3B1, 0x342]), (0x1FB7, [0x3B1, 0x342, 0x3B9]),
  (0x1FBC, [0x3B1, 0x3B9]), (0x1FC2, [0x1F74, 0x3B9]), (0x1FC3, [0x3B7, 0x3B9]),
  (0x1FC4, [0x3AE, 0x3B9]), (0x1FC6, [0x3B7, 0x342]), (0x1FC7, [0x3B7, 0x342, 0x3B9]),
  (0x1FCC, [0x3B7, 0x3B9]), (0x1FD2, [0x3B9, 0x308, 0x300]), (0x1FD3, [0x3B9, 0x308, 0x301]),
  (0x1FD6, [0x3B9, 0x342]), (0x1FD7, [0x3B9, 0x308, 0x342]), (0x1FE2, [0x3C5, 0x308, 0x300]),
  (0x1FE3, [0x3C5, 0x308, 0x301]), (0x1FE4, [0x3C1, 0x313]), (0x1FE6, [0x3C5, 0x342]),
  (0x1FE7, [0x3C5, 0x308, 0x342]), (0x1FF2, [0x1F7C, 0x3B9]), (0x1FF3, [0x3C9, 0x3B9]),
  (0x1FF4, [0x3CE, 0x3B9]), (0x1FF6, [0x3C9, 0x342]), (0x1FF7, [0x3C9, 0x342, 0x3B9]),
  (0x1FFC, [0x3C9, 0x3B9]), (0xFB00, [0x66, 0x66]), (0xFB01, [0x66, 0x69]), (0xFB02, [0x66, 0x6C]),
  (0xFB03, [0x66, 0x66, 0x69]), (0xFB04, [0x66, 0x66, 0x6C]), (0xFB05, [0x73, 0x74]),
  (0xFB06, [0x73, 0x74]), (0xFB13, [0x574, 0x576]), (0xFB14, [0x574, 0x565]),
  (0xFB15, [0x574, 0x56B]), (0xFB16, [0x57E, 0x576]), (0xFB17, [0x574, 0x56D])]

/-- The letters with an iota below, eight in a row, each with the first letter without it. -/
def iotaFolds : List (Nat × Nat) := [
  (0x1F80, 0x1F00), (0x1F88, 0x1F00), (0x1F90, 0x1F20), (0x1F98, 0x1F20), (0x1FA0, 0x1F60),
  (0x1FA8, 0x1F60)]

/-- A character regardless of case, as one character or several. -/
def foldCharFully (c : Char) : List Char :=
  let n := c.toNat
  match longFolds.lookup n, iotaFolds.lookup (n / 8 * 8) with
  | some codes, _ => codes.map Char.ofNat
  | none, some first => [Char.ofNat (first + n % 8), Char.ofNat 0x3B9]
  | none, none => [foldChar c]

def folded (s : String) : String := String.ofList (s.toList.map foldChar)

end TreeQuery.Text
