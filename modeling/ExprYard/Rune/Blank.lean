import ExprYard.Rune.Table

/-!
# Blanks

The runes with the property White_Space of Unicode 17.0.
-/

namespace ExprYard.Rune

/-- The property White_Space. -/
def blank : Table where
  ranges :=
    [(0x9, 0xD), (0x20, 0x20), (0x85, 0x85), (0xA0, 0xA0), (0x1680, 0x1680), (0x2000, 0x200A),
     (0x2028, 0x2029), (0x202F, 0x202F), (0x205F, 0x205F), (0x3000, 0x3000)]
  ascends := by decide +kernel

/-- Whether a rune has the property White_Space. -/
def isBlank (rune : Char) : Bool :=
  blank.covers rune.toNat

end ExprYard.Rune
