import ErrorDerive.Command.Arguments
import ErrorDerive.Files.Store
import ErrorDerive.Proofs.Parsing.Steps

/-!
# Where arguments come from

The source of a request is one of the words of the command line, and the value of an option is a
word or what is behind the start of one.  So a path has only characters that are in the words, and
an option is blank only if a word ends in two hyphens.
-/

namespace ErrorDerive

namespace Command

/-! ## Sorted words -/

/-- A sorted word holds the text of a word, or an end of it. -/
def Word.From (u : String) : Word → Prop
  | .operand text => text = u
  | .option _ (some value) => ∃ ds, ds ≠ [] ∧ u.toList = ds ++ value
  | _ => True

variable {u : String} {us : List String} {w : Word} {ws : List Word}

/-- Every sorted word comes from a word. -/
def Sorted (us : List String) (ws : List Word) : Prop := ∀ w ∈ ws, ∃ u ∈ us, w.From u

theorem Sorted.tail (h : Sorted us (w :: ws)) : Sorted us ws :=
  fun x hx ↦ h x (List.mem_cons_of_mem w hx)

/-- An option whose value, if it has one, is a word or an end of one. -/
inductive PathOption.From (us : List String) : PathOption → Prop
  | absent : From us .absent
  | word {u : String} (h : u ∈ us) : From us (.ofWord u)
  | attached {u : String} {ds value : List Char} (h : u ∈ us) (hd : ds ≠ [])
    (hu : u.toList = ds ++ value) : From us (.ofAttached value)

/-- A draft whose values come from words. -/
structure Draft.From (us : List String) (d : Draft) : Prop where
  source : ∀ s ∈ d.source, s ∈ us
  output : d.output.From us
  config : d.config.From us

/-- A request whose values come from words. -/
structure Request.From (us : List String) (r : Request) : Prop where
  source : r.source ∈ us
  output : r.output.From us
  config : r.config.From us

namespace Draft.From

variable {d : Draft}

theorem withExtra (h : d.From us) (text : String) : (d.withExtra text).From us :=
  ⟨h.source, h.output, h.config⟩

theorem withValue {o : PathOption} (h : d.From us) (ho : o.From us) (s : Switch) :
    (d.withValue o s).From us := by
  cases s with
  | output => exact ⟨h.source, ho, h.config⟩
  | config => exact ⟨h.source, h.output, ho⟩
  | _ => exact h

theorem withFlag (h : d.From us) (s : Switch) : (d.withFlag s).From us := by
  cases s <;> exact ⟨h.source, h.output, h.config⟩

theorem finish {r : Request} (h : d.From us) (hr : d.finish = .request r) : r.From us := by
  unfold Draft.finish at hr
  split at hr
  · cases hr
  · next s hs _ =>
    cases hr
    exact ⟨h.source s hs, h.output, h.config⟩
  · cases hr

end Draft.From

end Command

/-! ## Null characters -/

end ErrorDerive
