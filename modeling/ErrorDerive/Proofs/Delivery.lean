import ErrorDerive.Proofs.Delivery.Arguments
import ErrorDerive.Proofs.Delivery.Json

/-!
# Delivery of code

What a run of the command leaves behind: the exit code says whether everything went well, the code
of an expansion is delivered to one place, and diagnostics to another.  No file is touched but the
one for the output, and this one only by code that is delivered.

A run that ends without a report is one that comes to use a blank option.
-/

namespace ErrorDerive

/-! ## Files -/

namespace Store

variable {s s' : Store} {p : Path} {bytes : List UInt8}

end Store

namespace Command

namespace Request

variable (r : Request) (store : Store) (stdin : List UInt8)

/-! ## What a request asks for -/

/-- The content of the settings file, if there is one. -/
def settingsContent (r : Request) (store : Store) : Option (Path × Content) :=
  r.config.path?.map fun p ↦ (p, store.read p)

/-- The content of the source. -/
def sourceContent (r : Request) (store : Store) (stdin : List UInt8) : Content :=
  if r.readsStdin then .ok stdin else store.read r.sourcePath

/-- The settings and the source text of a request. -/
structure Loads (settings : Settings) (text : String) : Prop where
  named : r.config ≠ .blank
  settings : r.settings (r.settingsContent store) = .ok settings
  source : r.sourceText (r.sourceContent store stdin) = .ok text

/-- Why the settings or the source text of a request cannot be loaded. -/
def Unloaded (d : Diagnostic) : Prop :=
  r.settings (r.settingsContent store) = .error d ∨
    ∃ settings, r.settings (r.settingsContent store) = .ok settings ∧
      r.sourceText (r.sourceContent store stdin) = .error d

/-- The expansion of the source text of a request. -/
def Expands (e : Expansion) : Prop :=
  ∃ settings text, r.Loads store stdin settings text ∧
    expand settings (some r.label) text = .ok e

/-- What becomes of writing the code of an expansion to the output file. -/
def Writes (e : Expansion) (result : Except FileFault Store) : Prop :=
  r.delivers e = true ∧ ∃ p, r.output = .path p ∧ store.write p e.code.toUTF8.toList = result

/-- What a run reports. -/
inductive Reports : List Diagnostic → Prop
  | unloaded {d : Diagnostic} (h : r.Unloaded store stdin d) : Reports [d]
  | unwritten {e : Expansion} {f : FileFault} (he : r.Expands store stdin e)
    (hw : r.Writes store e (.error f)) :
    Reports [fileDiagnostic f.path.render ("cannot write output: " ++ f.message)]
  | expanded {e : Expansion} (he : r.Expands store stdin e)
    (hw : ∀ f, ¬r.Writes store e (.error f)) : Reports e.diagnostics

variable {r store stdin}

theorem Expands.unique {e e' : Expansion} (h : r.Expands store stdin e)
    (h' : r.Expands store stdin e') : e = e' := by
  obtain ⟨s, t, ⟨-, hs, ht⟩, he⟩ := h
  obtain ⟨s', t', ⟨-, hs', ht'⟩, he'⟩ := h'
  obtain rfl : s = s' := Except.ok.inj (hs.symm.trans hs')
  obtain rfl : t = t' := Except.ok.inj (ht.symm.trans ht')
  exact Except.ok.inj (he.symm.trans he')

/-- How the delivery of an expansion ends. -/
inductive Delivered (r : Request) (store : Store) (e : Expansion) :
    Except Interruption Outcome → Prop
  | shown (h : r.delivers e = false ∨ r.output = .absent) :
    Delivered r store e (.ok ⟨r.finish e, store⟩)
  | blank (hd : r.delivers e = true) (ho : r.output = .blank) :
    Delivered r store e (.error .writesBlank)
  | written {store' : Store} (h : r.Writes store e (.ok store')) :
    Delivered r store e (.ok ⟨r.finish e, store'⟩)
  | unwritten {f : FileFault} (h : r.Writes store e (.error f)) :
    Delivered r store e (.ok ⟨r.writeFailed f, store⟩)

/-- How a request ends. -/
inductive Ends (r : Request) (store : Store) (stdin : List UInt8) :
    Except Interruption Outcome → Prop
  | blank (hc : r.config = .blank) : Ends r store stdin (.error .readsBlank)
  | unloaded {d : Diagnostic} (hc : r.config ≠ .blank) (h : r.Unloaded store stdin d) :
    Ends r store stdin (.ok ⟨abort r.json d, store⟩)
  | delivered {e : Expansion} {result : Except Interruption Outcome}
    (he : r.Expands store stdin e) (h : r.Delivered store e result) : Ends r store stdin result

theorem Writes.unique {e : Expansion} {x y : Except FileFault Store} (hx : r.Writes store e x)
    (hy : r.Writes store e y) : x = y := by
  obtain ⟨-, p, hp, hx⟩ := hx
  obtain ⟨-, q, hq, hy⟩ := hy
  obtain rfl : p = q := PathOption.path.inj (hp.symm.trans hq)
  exact hx.symm.trans hy

end Request

end Command

end ErrorDerive
