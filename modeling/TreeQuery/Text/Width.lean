import TreeQuery.Text.BreakClass

/-!
# The width of characters on a terminal

Characters of the East Asian scripts and most pictographs take two columns, combining marks,
controls and format characters take none, and all others take one.
-/

namespace TreeQuery.Text

/-- Where characters of no width and characters that extend others are not the same. -/
def zeroWidthExceptions : List Nat := [
  0,32,95,33,13,1,1362,6,22,1,192,1,49,1,384,8,74,1,219,1,24,1,39,2,66,4,2,2,3,3,117,1,57,1,61,1,
  15,7,2,1,102,1,24,1,113,1,4,7,109,1,18,2,103,1,24,1,119,1,5,1,9,1,238,1,201,1,2165,1,592,1,29,2,
  182,1,1237,1,1,3,24,7,49,16,4030,2,52943,1,158,2,89,3,2568,1,2,5,47,4,1214,3,445,1,5,11,371,1,
  252,1,24,1,21,3,320,1,12,1,241,1,896,1,167,2,605,1,255,3,1,1,2,1,449,2,52,5,5,1,1,1,5357,9,7,1,6,
  15,34890,4,4746,2,565,1,8,13,2341,1,1382,1,17,2,7,1,2,1,105,1,1116,4,793361,31]

/-- **The number of columns of a character.** -/
def charWidth (c : Char) : Nat :=
  if inRuns extendRuns c.toNat != inRuns zeroWidthExceptions c.toNat then 0
  else if inRuns wideRuns c.toNat then 2
  else 1

end TreeQuery.Text
