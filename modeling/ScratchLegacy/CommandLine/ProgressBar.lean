import ScratchLegacy.Legacy.Package

/-!
# Progress bars

A step of a conversion is reported in one line, with its label, its number
and a bar of fixed width that is filled in proportion.
-/

namespace ScratchLegacy.CommandLine

/-- How many places the bar has. -/
def barWidth : Nat := 14

/-- How many places of a bar are filled: the proportion, rounded to the
nearest, a half upwards. -/
def filled (step total width : Nat) : Nat := (step * width + total / 2) / total

/-- **A bar**, filled with `=` from the left. -/
def bar (step total width : Nat) : String :=
  let count := min (filled step total width) width
  String.ofList
    (['['] ++ List.replicate count '=' ++ List.replicate (width - count) '-' ++ [']'])

/-- **The line that reports a step.** The number of the step is kept between
one and the number of all steps. -/
def progressLine (p : Progress) : String :=
  let total := max p.total 1
  let step := min (max p.step 1) total
  s!"[Convert] {p.label}... ({step}/{total}) {bar step total barWidth}"

/-- The last step fills the bar. -/
theorem filled_self (total width : Nat) (h : 0 < total) : filled total total width = width := by
  unfold filled
  rw [Nat.mul_add_div h]
  have : total / 2 / total = 0 := Nat.div_eq_of_lt (by omega)
  omega

end ScratchLegacy.CommandLine
