import Mathlib.Data.List.DropRight
import Conform.Proofs.TextLines
import Conform.Text.Blank

/-!
# Consoles that crop

Some consoles leave out the blanks at the end of a line as far as they stand beyond the width of the
screen, and print everything else. So what they leave out is told by the lines alone: an output is
printed as it is exactly if no line beyond the width ends in a blank (`cropped_eq_self_iff`).
-/

namespace Conform.Command.Console

/-- A line without the blanks at its end that stand beyond a width. -/
def cropLine (width : Nat) (line : List Char) : List Char :=
  line.take (max width (line.rdropWhile isBlank).length)

/-- An output with every line cropped. -/
def cropped (width : Nat) (cs : List Char) : List Char :=
  ['\n'].intercalate ((cs.splitOn '\n').map (cropLine width))

/-- A line that is no longer than a width, or does not end in a blank. -/
def Fits (width : Nat) (line : Text) : Prop :=
  width < line.length → ∀ c, line.getLast? = some (.char c) → isBlank c = false

theorem fits_ofChars {width : Nat} {line : List Char} :
    Fits width (Text.ofChars line) ↔
      (width < line.length → ∀ c, line.getLast? = some c → isBlank c = false) := by
  simp [Fits, Text.ofChars, List.getLast?_map, Option.map_eq_some_iff]

theorem cropLine_eq_self_iff {width : Nat} {line : List Char} :
    cropLine width line = line ↔ Fits width (Text.ofChars line) := by
  have htake : ∀ n, line.take n = line ↔ line.length ≤ n := fun n =>
    ⟨fun h => by rw [← h]; exact List.length_take_le n line, List.take_of_length_le⟩
  have hkept : line.length ≤ (line.rdropWhile isBlank).length ↔
      ∀ c, line.getLast? = some c → isBlank c = false := by
    constructor
    · intro h c hc
      have hself : line.rdropWhile isBlank = line :=
        (List.rdropWhile_prefix isBlank line).eq_of_length_le h
      have hne : line ≠ [] := by
        rintro rfl
        cases hc
      rw [List.getLast?_eq_some_getLast hne] at hc
      obtain rfl := Option.some.inj hc
      exact Bool.eq_false_iff.mpr (List.rdropWhile_eq_self_iff.mp hself hne)
    · intro h
      refine Nat.le_of_eq (congrArg List.length (List.rdropWhile_eq_self_iff.mpr fun hne => ?_)).symm
      rw [h _ (List.getLast?_eq_some_getLast hne)]
      exact Bool.false_ne_true
  have hmax : ∀ n, line.length ≤ max width n ↔ (width < line.length → line.length ≤ n) := by omega
  rw [cropLine, htake, hmax, hkept, fits_ofChars]

/-- Cropping leaves characters out and adds none. -/
theorem cropped_sublist (width : Nat) (cs : List Char) : (cropped width cs).Sublist cs := by
  have hlines : ∀ ls : List (List Char),
      (['\n'].intercalate (ls.map (cropLine width))).Sublist (['\n'].intercalate ls) := by
    intro ls
    induction ls with
    | nil => exact List.Sublist.refl _
    | cons l ls ih =>
      have hl : (cropLine width l).Sublist l := List.take_sublist _ l
      cases ls with
      | nil => simpa using hl
      | cons m ls =>
        rw [List.map_cons, List.map_cons, List.intercalate_cons_cons, List.intercalate_cons_cons]
        exact (hl.append (List.Sublist.refl _)).append ih
  have h := hlines (cs.splitOn '\n')
  rwa [List.intercalate_splitOn] at h

/-- **Cropping changes nothing exactly if all lines fit.** -/
theorem cropped_eq_self_iff {width : Nat} {cs : List Char} :
    cropped width cs = cs ↔ ∀ line ∈ cs.splitOn '\n', Fits width (Text.ofChars line) := by
  simp only [← cropLine_eq_self_iff]
  constructor
  · intro h line hline
    -- cropped lines are lines, so they are read back from the output
    have hcropped : (cropped width cs).splitOn '\n' = (cs.splitOn '\n').map (cropLine width) := by
      refine List.splitOn_intercalate '\n' (fun l hl => ?_) (by simp [List.splitOn_ne_nil])
      obtain ⟨own, hown, rfl⟩ := List.mem_map.mp hl
      exact fun hmem => not_mem_part hown (List.mem_of_mem_take hmem)
    rw [h] at hcropped
    have hid : (cs.splitOn '\n').map (cropLine width) = (cs.splitOn '\n').map id := by
      rw [List.map_id, ← hcropped]
    exact List.map_inj_left.mp hid line hline
  · intro h
    rw [cropped, List.map_congr_left h, List.map_id', List.intercalate_splitOn]

end Conform.Command.Console
