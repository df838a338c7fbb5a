import ErrorDerive.Text.Blank
import Mathlib.Data.List.DropRight
import Mathlib.Data.List.Infix

/-!
# Lines and the white space around them

Text that is joined by newlines breaks into the lines that it was joined from, but for an empty one
at its end; white space put around it does not show in the lines that are kept, which are those that
are not blank, without the white space around them.
-/

namespace ErrorDerive.Text

variable {l cs ds w : List Char} {ls : List (List Char)}

/-! ## White space at the ends -/

/-- White space only. -/
def Blank (w : List Char) : Prop := ∀ c ∈ w, isBlank c = true

/-- Text without white space at its ends. -/
def Trimmed (cs : List Char) : Prop :=
  (∀ c ∈ cs.head?, isBlank c = false) ∧ ∀ c ∈ cs.getLast?, isBlank c = false

theorem trim_eq_rdropWhile (cs : List Char) :
    trim cs = (cs.dropWhile isBlank).rdropWhile isBlank := rfl

theorem Trimmed.trim_eq (h : Trimmed cs) : trim cs = cs := by
  have hd : cs.dropWhile isBlank = cs := by
    cases cs with
    | nil => rfl
    | cons c cs => rw [List.dropWhile_cons_of_neg (by simp [h.1 c rfl])]
  rw [trim_eq_rdropWhile, hd, List.rdropWhile_eq_self_iff]
  intro hne
  rw [h.2 _ (List.getLast?_eq_getLast_of_ne_nil hne)]
  exact Bool.false_ne_true

theorem trimmed_trim (cs : List Char) : Trimmed (trim cs) := by
  rw [trim_eq_rdropWhile]
  refine ⟨fun c hc ↦ ?_, fun c hc ↦ ?_⟩
  · have hp := List.rdropWhile_prefix isBlank (cs.dropWhile isBlank)
    have hh : (cs.dropWhile isBlank).head? = some c := by
      obtain ⟨x, hx⟩ := hp
      rw [← hx, List.head?_append, hc, Option.some_or]
    have hn := List.head?_dropWhile_not isBlank cs
    rwa [hh] at hn
  · have hne : (cs.dropWhile isBlank).rdropWhile isBlank ≠ [] := by
      intro he
      simp [he] at hc
    rw [List.getLast?_eq_getLast_of_ne_nil hne] at hc
    have hn := List.rdropWhile_last_not isBlank _ hne
    rw [Option.mem_some_iff.1 hc] at hn
    simpa using hn

@[simp] theorem trim_trim (cs : List Char) : trim (trim cs) = trim cs := (trimmed_trim cs).trim_eq

theorem trim_append_left (hw : Blank w) (cs : List Char) : trim (w ++ cs) = trim cs := by
  rw [trim, List.dropWhile_append_of_pos hw, trim]

theorem trim_append_right (hw : Blank w) (cs : List Char) : trim (cs ++ w) = trim cs := by
  rw [trim_eq_rdropWhile, trim_eq_rdropWhile, List.dropWhile_append]
  split
  · next he => rw [List.isEmpty_iff.1 he, List.dropWhile_eq_nil_iff.2 hw]
  · have hr : ∀ c ∈ w.reverse, isBlank c = true := fun c hc ↦ hw c (List.mem_reverse.1 hc)
    rw [List.rdropWhile, List.reverse_append, List.dropWhile_append_of_pos hr, List.rdropWhile]

theorem mem_of_mem_trim {c : Char} (h : c ∈ trim cs) : c ∈ cs :=
  (List.dropWhile_suffix isBlank).subset ((List.rdropWhile_prefix isBlank _).subset h)

/-! ## Lines -/

/-- Text without line breaks. -/
def Unbroken (l : List Char) : Prop := ∀ c ∈ l, isLineBreak c = false

theorem lines_cons {c : Char} (hc : isLineBreak c = false) (cs : List Char) :
    lines (c :: cs) = consLine c (lines cs) := by
  cases cs with
  | nil => simp [lines, hc, consLine]
  | cons d cs => simp [lines, hc]

theorem lines_of_unbroken (h : Unbroken l) (hne : l ≠ []) : lines l = [l] := by
  induction l with
  | nil => exact absurd rfl hne
  | cons c l ih =>
    obtain ⟨hc, hl⟩ := List.forall_mem_cons.1 h
    rw [lines_cons hc]
    by_cases he : l = []
    · rw [he]
      rfl
    · rw [ih hl he]
      rfl

theorem lines_append_newline (h : Unbroken l) (cs : List Char) :
    lines (l ++ '\n' :: cs) = l :: lines cs := by
  induction l with
  | nil => cases cs <;> rfl
  | cons c l ih =>
    obtain ⟨hc, hl⟩ := List.forall_mem_cons.1 h
    rw [List.cons_append, lines_cons hc, ih hl]
    rfl

/-- The lines that say something, without the white space around them. -/
def kept (ls : List (List Char)) : List (List Char) := (ls.map trim).filter (!·.isEmpty)

theorem kept_cons (l : List Char) (ls : List (List Char)) : kept (l :: ls) = kept [l] ++ kept ls := by
  rw [kept, ← List.singleton_append, List.map_append, List.filter_append, kept, kept]

@[simp] theorem kept_map_trim (ls : List (List Char)) : kept (ls.map trim) = kept ls := by
  simp [kept, Function.comp_def]

/-- The kept lines of joined text are those of what it was joined from. -/
theorem kept_lines_intercalate (h : ∀ l ∈ ls, Unbroken l) :
    kept (lines (['\n'].intercalate ls)) = kept ls := by
  induction ls with
  | nil => rfl
  | cons l ls ih =>
    obtain ⟨hl, hs⟩ := List.forall_mem_cons.1 h
    cases ls with
    | nil =>
      rw [List.intercalate_singleton]
      by_cases he : l = []
      · rw [he]
        rfl
      · rw [lines_of_unbroken hl he]
    | cons m ls =>
      rw [List.intercalate_cons_cons, List.append_assoc, List.singleton_append,
        lines_append_newline hl, kept_cons, ih hs, ← kept_cons]

/-- White space around joined text goes with that of the lines. -/
theorem map_trim_lines_padded (h : ∀ l ∈ ls, Unbroken l) (hne : ls ≠ []) (hw : Blank w)
    (hu : Unbroken w) :
    (lines (w ++ ['\n'].intercalate ls ++ [' '])).map trim = ls.map trim := by
  have hb : Blank [' '] := by simp [Blank, isBlank]
  induction ls generalizing w with
  | nil => exact absurd rfl hne
  | cons l ls ih =>
    obtain ⟨hl, hs⟩ := List.forall_mem_cons.1 h
    have hwl : Unbroken (w ++ l) := List.forall_mem_append.2 ⟨hu, hl⟩
    cases ls with
    | nil =>
      have hn : Unbroken (w ++ l ++ [' ']) :=
        List.forall_mem_append.2 ⟨hwl, by simp [isLineBreak]⟩
      rw [List.intercalate_singleton, lines_of_unbroken hn (by simp), List.map_singleton,
        trim_append_right hb, trim_append_left hw, List.map_singleton]
    | cons m ls =>
      have hi := ih hs (by simp) (w := []) (by simp [Blank]) (by simp [Unbroken])
      rw [List.nil_append] at hi
      rw [List.intercalate_cons_cons, List.append_assoc l, ← List.append_assoc w,
        List.append_assoc (w ++ l), List.singleton_append, List.cons_append,
        lines_append_newline hwl, List.map_cons, hi, trim_append_left hw, ← List.map_cons]

/-! ## Kept lines on one line -/

/-- Text that says something and can stand between spaces on a line. -/
structure Neat (cs : List Char) : Prop where
  ne_nil : cs ≠ []
  trimmed : Trimmed cs
  unbroken : Unbroken cs

theorem neat_of_mem_kept (h : ∀ l ∈ ls, Unbroken l) (hl : l ∈ kept ls) : Neat l := by
  obtain ⟨ht, hn⟩ := List.mem_filter.1 hl
  obtain ⟨m, hm, rfl⟩ := List.mem_map.1 ht
  exact ⟨by simpa using hn, trimmed_trim m, fun c hc ↦ h m hm c (mem_of_mem_trim hc)⟩

theorem Neat.append (hc : Neat cs) (hd : Neat ds) : Neat (cs ++ ' ' :: ds) := by
  refine ⟨by simp, ⟨fun c h ↦ hc.trimmed.1 c ?_, fun c h ↦ hd.trimmed.2 c ?_⟩,
    List.forall_mem_append.2 ⟨hc.unbroken, List.forall_mem_cons.2 ⟨by decide, hd.unbroken⟩⟩⟩
  · obtain ⟨x, cs, rfl⟩ := List.exists_cons_of_ne_nil hc.ne_nil
    exact h
  · obtain ⟨x, ds, rfl⟩ := List.exists_cons_of_ne_nil hd.ne_nil
    rwa [List.getLast?_append_cons, List.getLast?_cons_cons] at h

theorem neat_intercalate (h : ∀ l ∈ ls, Neat l) (hne : ls ≠ []) : Neat ([' '].intercalate ls) := by
  induction ls with
  | nil => exact absurd rfl hne
  | cons l ls ih =>
    obtain ⟨hl, hs⟩ := List.forall_mem_cons.1 h
    cases ls with
    | nil => simpa using hl
    | cons m ls => simpa using hl.append (ih hs (by simp))

/-- The kept lines, joined by spaces, are one line without white space around it. -/
theorem intercalate_kept (h : ∀ l ∈ ls, Unbroken l) :
    Unbroken ([' '].intercalate (kept ls)) ∧ Trimmed ([' '].intercalate (kept ls)) := by
  by_cases hne : kept ls = []
  · rw [hne]
    exact ⟨by simp [Unbroken], by simp [Trimmed]⟩
  · have hn := neat_intercalate (fun l hl ↦ neat_of_mem_kept h hl) hne
    exact ⟨hn.unbroken, hn.trimmed⟩

end ErrorDerive.Text
