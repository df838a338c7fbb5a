import ErrorDerive.Proofs.Sites

/-!
# Positions

Lines and columns are counted along while a text is cut into lexemes, through strings and comments
that hold newlines themselves.  Here they are read off the text instead: the text before an offset
is cut into rows at its newlines, and the offset lies just past the last of them.  All positions in
the trees of a text are those of their offsets, and they never decrease (`positions_of_read`).
-/

namespace ErrorDerive

variable {source : List Char}

/-! ## Rows -/

/-- The rows of the text before an offset, which newlines separate. -/
def rowsTo (source : List Char) (n : Nat) : List (List Char) := (source.take n).splitOn '\n'

/-- The line of an offset. -/
def lineAt (source : List Char) (n : Nat) : Nat := (rowsTo source n).length

/-- The column of an offset. -/
def columnAt (source : List Char) (n : Nat) : Nat := ((rowsTo source n).getLastD []).length + 1

namespace Place

theorem length_splitOn_newline (cs : List Char) :
    (cs.splitOn '\n').length = cs.count '\n' + 1 := by
  induction cs with
  | nil => rfl
  | cons c cs ih =>
    rw [List.splitOn] at ih ⊢
    rw [List.splitOnP_cons_eq_if_modifyHead]
    split
    · next hc => rw [List.length_cons, ih, beq_iff_eq.1 hc, List.count_cons_self]
    · next hc => rw [List.length_modifyHead, ih, List.count_cons_of_ne (by simpa using hc)]

/-- Behind a text that is empty or ends with a newline, a row is the last one. -/
theorem getLastD_splitOn_newline {front row : List Char} (hr : '\n' ∉ row)
    (hf : front = [] ∨ front.getLast? = some '\n') :
    ((front ++ row).splitOn '\n').getLastD [] = row := by
  have hs : row.splitOn '\n' = [row] :=
    List.splitOnP_eq_singleton fun c hc ↦ beq_eq_false_iff_ne.2 fun he ↦ hr (he ▸ hc)
  rcases hf with rfl | hf
  · rw [List.nil_append, hs]
    rfl
  · obtain ⟨front, rfl⟩ := List.getLast?_eq_some_iff.1 hf
    have hc : (front ++ ['\n'] ++ row).splitOn '\n' = front.splitOn '\n' ++ [row] := by
      rw [List.append_assoc, ← hs]
      exact List.splitOnP_append_cons front row (beq_self_eq_true '\n')
    rw [hc, List.getLastD_concat]

/-- A place whose line and column are those of its offset in a text. -/
structure Exact (source : List Char) (p : Place) : Prop where
  offset_le : p.offset ≤ source.length
  line : p.line = lineAt source p.offset
  column : p.column = columnAt source p.offset

theorem In.exact {p : Place} (h : p.In source) : p.Exact source := by
  refine ⟨h.offset_le, ?_, ?_⟩
  · rw [h.line, lineAt, rowsTo, length_splitOn_newline]
  · obtain ⟨front, row, hs, hr, hf, hc⟩ := h.column
    have hl : p.offset = front.length + row.length := by
      rw [← List.length_append, ← hs, List.length_take, Nat.min_eq_left h.offset_le]
    rw [hc, columnAt, rowsTo, hs, getLastD_splitOn_newline hr hf]
    omega

/-- The place behind the start of a text is exact in it. -/
theorem exact_after (cs rest : List Char) : (origin.after cs).Exact (cs ++ rest) :=
  (in_after cs rest).exact

/-- An exact place is the one that is reached by going through the text up to it. -/
theorem Exact.eq_after {p : Place} (h : p.Exact source) :
    p = origin.after (source.take p.offset) := by
  have ho : (origin.after (source.take p.offset)).offset = p.offset := by
    simp [origin, h.offset_le]
  have ha := exact_after (source.take p.offset) (source.drop p.offset)
  rw [List.take_append_drop] at ha
  have hl := ha.line
  have hc := ha.column
  rw [ho, ← h.line] at hl
  rw [ho, ← h.column] at hc
  obtain ⟨offset, line, column⟩ := p
  exact (Place.mk.injEq _ _ _ _ _ _).mpr ⟨ho.symm, hl.symm, hc.symm⟩

/-! ## Order -/

/-- A place that does not lie behind another one in reading order. -/
def AtMost (p q : Place) : Prop := p.line < q.line ∨ p.line = q.line ∧ p.column ≤ q.column

theorem AtMost.trans {p q r : Place} (h : p.AtMost q) (h' : q.AtMost r) : p.AtMost r := by
  unfold AtMost at *
  omega

theorem atMost_advance (p : Place) (c : Char) : p.AtMost (p.advance c) := by
  unfold advance
  split
  · exact .inl (Nat.lt_succ_self _)
  · exact .inr ⟨rfl, Nat.le_succ _⟩

theorem atMost_after (p : Place) (cs : List Char) : p.AtMost (p.after cs) := by
  induction cs generalizing p with
  | nil => exact .inr ⟨rfl, Nat.le_refl _⟩
  | cons c cs ih => exact (p.atMost_advance c).trans (ih _)

/-- Exact places are in the order of their offsets. -/
theorem Exact.atMost {p q : Place} (hp : p.Exact source) (hq : q.Exact source)
    (h : p.offset ≤ q.offset) : p.AtMost q := by
  have hs : source.take q.offset = source.take p.offset ++ stretch source p.offset q.offset := by
    have ha := stretch_append_stretch source (Nat.zero_le p.offset) h
    simpa [stretch] using ha.symm
  have hpq : q = p.after (stretch source p.offset q.offset) := by
    calc q = origin.after (source.take q.offset) := hq.eq_after
      _ = (origin.after (source.take p.offset)).after (stretch source p.offset q.offset) := by
        rw [hs, after_append]
      _ = p.after (stretch source p.offset q.offset) := by rw [← hp.eq_after]
  rw [hpq]
  exact p.atMost_after _

end Place

/-! ## Trees -/

/-- An extent whose span shows the lines and columns of its offsets in a text. -/
structure Extent.Exact (source : List Char) (e : Extent) : Prop where
  start_le : e.start ≤ source.length
  stop_le : e.stop ≤ source.length
  line : e.span.line = some (lineAt source e.start : Int)
  column : e.span.column = some (columnAt source e.start : Int)
  endLine : e.span.endLine = some (lineAt source e.stop : Int)
  endColumn : e.span.endColumn = some (columnAt source e.stop : Int)

theorem Extent.exact_iff {e : Extent} :
    e.Exact source ↔ e.first.Exact source ∧ e.past.Exact source := by
  constructor
  · rintro ⟨ha, hb, hl, hc, hl', hc'⟩
    simp only [Extent.span, Option.some.injEq, Int.natCast_inj] at hl hc hl' hc'
    exact ⟨⟨ha, hl, hc⟩, hb, hl', hc'⟩
  · rintro ⟨⟨ha, hl, hc⟩, hb, hl', hc'⟩
    refine ⟨ha, hb, ?_, ?_, ?_, ?_⟩
    · rw [Extent.span, hl, Extent.start]
    · rw [Extent.span, hc, Extent.start]
    · rw [Extent.span, hl', Extent.stop]
    · rw [Extent.span, hc', Extent.stop]

/-- The extent just past a text is exact in it. -/
theorem Extent.exact_endOf (label : Option String) (source : List Char) :
    (Extent.endOf label source).Exact source := by
  have hp := Place.exact_after source []
  rw [List.append_nil] at hp
  exact exact_iff.2 ⟨hp, hp⟩

namespace Tree

/-- A tree with exact extents, at any depth.  The end of a group is its last character. -/
inductive Exact (source : List Char) : Tree → Prop
  | leaf {e : Extent} {l : Leaf} (h : e.Exact source) : Exact source (.leaf e l)
  | group {e close : Extent} {d : Delimiter} {ts : List Tree} (h : e.Exact source)
      (hc : close.Exact source) (hs : close.start + 1 = e.stop) (hp : close.stop = e.stop)
      (ht : ∀ t ∈ ts, Exact source t) : Exact source (.group e d ts close)

variable {label : Option String} {ts : List Tree} {tokens : List Token}

/-- A group of exact brackets is exact. -/
theorem exact_of_fold {fs : List Frame} {done : List Tree}
    (hf : ∀ f ∈ fs, f.opening.Exact source ∧ ∀ t ∈ f.before, t.Exact source)
    (hd : ∀ t ∈ done, t.Exact source) (ht : ∀ t ∈ tokens, t.extent.Exact source)
    (hs : Slim tokens) (h : fold label fs done tokens = .ok ts) : ∀ t ∈ ts, t.Exact source := by
  induction tokens generalizing fs done with
  | nil =>
    cases fs with
    | nil =>
      cases h
      exact fun t ht ↦ hd t (List.mem_reverse.1 ht)
    | cons f fs => cases h
  | cons t tokens ih =>
    obtain ⟨he, ht⟩ := List.forall_mem_cons.1 ht
    obtain ⟨hw, hs⟩ := List.forall_mem_cons.1 hs
    cases hk : t.kind with
    | leaf k =>
      rw [fold_leaf hk] at h
      exact ih hf (List.forall_mem_cons.2 ⟨.leaf he, hd⟩) ht hs h
    | opener d =>
      rw [fold_opener hk] at h
      exact ih (List.forall_mem_cons.2 ⟨⟨he, hd⟩, hf⟩) (by simp) ht hs h
    | closer d =>
      cases fs with
      | nil =>
        rw [fold_stray hk] at h
        cases h
      | cons f fs =>
        obtain ⟨⟨ho, hb⟩, hf⟩ := List.forall_mem_cons.1 hf
        by_cases hm : d = f.delimiter
        · subst hm
          rw [fold_closer hk] at h
          have hg : (Extent.mk label f.opening.first t.extent.past).Exact source :=
            Extent.exact_iff.2 ⟨(Extent.exact_iff.1 ho).1, (Extent.exact_iff.1 he).2⟩
          have hw : t.extent.stop = t.extent.start + 1 := hw (by simp [hk])
          refine ih hf (List.forall_mem_cons.2 ⟨.group hg he hw.symm rfl ?_, hb⟩) ht hs h
          exact fun u hu ↦ hd u (List.mem_reverse.1 hu)
        · rw [fold_mismatched hk hm] at h
          cases h

/-! ## Positions in a row -/

mutual

/-- The positions that a tree shows, from left to right: where its leaves start and end, where its
groups start, and where their closing brackets do and end. -/
def places : Tree → List Place
  | .leaf e _ => [e.first, e.past]
  | .group e _ ts c => e.first :: (placesAll ts ++ [c.first, c.past])

/-- The positions that trees show, from left to right. -/
def placesAll : List Tree → List Place
  | [] => []
  | t :: ts => places t ++ placesAll ts

end

@[simp] theorem placesAll_nil : placesAll [] = [] := by rw [placesAll]

@[simp] theorem placesAll_cons (t : Tree) (ts : List Tree) :
    placesAll (t :: ts) = places t ++ placesAll ts := by rw [placesAll]

@[simp] theorem places_leaf (e : Extent) (l : Leaf) :
    places (.leaf e l) = [e.first, e.past] := by rw [places]

@[simp] theorem places_group (e : Extent) (d : Delimiter) (ts : List Tree) (c : Extent) :
    places (.group e d ts c) = e.first :: (placesAll ts ++ [c.first, c.past]) := by rw [places]

mutual

theorem exact_of_mem_places (t : Tree) (h : t.Exact source) : ∀ p ∈ t.places, p.Exact source := by
  cases t with
  | leaf e l =>
    cases h with
    | leaf h => simpa using Extent.exact_iff.1 h
  | group e d ts c =>
    cases h with
    | group h hc _ _ ht =>
      rw [places_group]
      refine List.forall_mem_cons.2 ⟨(Extent.exact_iff.1 h).1, ?_⟩
      refine List.forall_mem_append.2 ⟨exact_of_mem_placesAll ts ht, ?_⟩
      simpa using Extent.exact_iff.1 hc

theorem exact_of_mem_placesAll (ts : List Tree) (h : ∀ t ∈ ts, t.Exact source) :
    ∀ p ∈ placesAll ts, p.Exact source := by
  cases ts with
  | nil => simp
  | cons t ts =>
    obtain ⟨ht, hs⟩ := List.forall_mem_cons.1 h
    rw [placesAll_cons]
    exact List.forall_mem_append.2 ⟨exact_of_mem_places t ht, exact_of_mem_placesAll ts hs⟩

end

/-- The offsets of atoms, from left to right. -/
def offsets (xs : List PlacedAtom) : List Nat := xs.flatMap fun x ↦ [x.start, x.stop]

@[simp] theorem offsets_append (xs ys : List PlacedAtom) :
    offsets (xs ++ ys) = offsets xs ++ offsets ys := List.flatMap_append

mutual

/-- The positions of a tree are at offsets of its atoms, in the same order. -/
theorem offsets_places (t : Tree) (h : t.Exact source) :
    (t.places.map Place.offset).Sublist (offsets t.flatten) := by
  cases t with
  | leaf e l => simp [offsets, Extent.start, Extent.stop]
  | group e d ts c =>
    cases h with
    | group h hc hs hp ht =>
      have hi := offsets_placesAll ts ht
      have hs : e.stop - 1 = c.first.offset := by simp [← hs, Extent.start]
      have hp : e.stop = c.past.offset := hp.symm
      rw [places_group, flatten_group, List.map_cons, List.map_append, hs, hp]
      refine .cons_cons _ (.cons _ ?_)
      change ((placesAll ts).map Place.offset ++ _).Sublist (offsets (flattenAll ts ++ _))
      rw [offsets_append]
      exact hi.append (.refl _)

theorem offsets_placesAll (ts : List Tree) (h : ∀ t ∈ ts, t.Exact source) :
    ((placesAll ts).map Place.offset).Sublist (offsets (flattenAll ts)) := by
  cases ts with
  | nil => simp
  | cons t ts =>
    obtain ⟨ht, hs⟩ := List.forall_mem_cons.1 h
    rw [placesAll_cons, flattenAll_cons, offsets_append, List.map_append]
    exact (offsets_places t ht).append (offsets_placesAll ts hs)

end

/-- The offsets of atoms that lie in a text one after the other never decrease. -/
theorem pairwise_offsets {xs : List PlacedAtom} (ho : Ordered xs) (hl : ∀ x ∈ xs, x.Lies source) :
    (offsets xs).Pairwise (· ≤ ·) := by
  refine List.pairwise_flatMap.2 ⟨fun x hx ↦ ?_, ho.imp_of_mem fun hx hy h ↦ ?_⟩
  · simpa using (hl x hx).1.le
  · have h₁ := (hl _ hx).1
    have h₂ := (hl _ hy).1
    simp
    omega

end Tree

/-! ## Reading -/

/-- The tokens of a text are exact. -/
theorem Token.exact_of_scan {label : Option String} {tokens : List Token}
    (h : scan label source = .ok tokens) : ∀ t ∈ tokens, t.extent.Exact source := by
  obtain ⟨ls, hs, rfl⟩ := scan_eq_ok_iff.1 h
  obtain ⟨rfl, -⟩ := Lexeme.split_eq_iff.1 hs
  intro t ht
  obtain ⟨front, k, text, back, rfl, -, hf, hp⟩ := exists_of_mem_place ht
  rw [List.flatMap_append, List.flatMap_cons, Extent.exact_iff, hf, hp]
  refine ⟨Place.exact_after _ _, ?_⟩
  rw [← List.append_assoc]
  exact Place.exact_after _ _

namespace Tree

variable {label : Option String} {source : String} {ts : List Tree}

/-- Positions are exact: the line and column of every span are those of its offset, at any depth,
and the end of the text is reported at those of its length.  From left to right positions never
decrease, up to the end of the text. -/
theorem positions_of_read (h : read label source = .ok ts) :
    (∀ t ∈ ts, t.Exact source.toList) ∧
      ((Extent.endOf label source.toList).Exact source.toList ∧
        (Extent.endOf label source.toList).start = source.toList.length ∧
          (Extent.endOf label source.toList).stop = source.toList.length) ∧
        (placesAll ts ++ [Place.endOf source.toList]).Pairwise Place.AtMost := by
  obtain ⟨tokens, hs⟩ := exists_scan_of_read h
  have hb := Token.spellsBracket_of_scan hs
  have hl := Token.laid_of_scan hs
  have hx : ∀ t ∈ ts, t.Exact source.toList :=
    exact_of_fold (by simp) (by simp) (Token.exact_of_scan hs) (hl.slim hb)
      ((read_eq_fold hs).symm.trans h)
  have he := Extent.exact_endOf label source.toList
  have hn : (Place.endOf source.toList).offset = source.toList.length := by
    simp [Place.endOf, Place.origin]
  refine ⟨hx, ⟨he, hn, hn⟩, List.pairwise_append.2 ⟨?_, List.pairwise_singleton _ _, ?_⟩⟩
  · have ho : (offsets (flattenAll ts)).Pairwise (· ≤ ·) := by
      rw [flattenAll_of_read hs h]
      exact pairwise_offsets hl.ordered (hl.lies hb)
    have hp := List.pairwise_map.1 (ho.sublist (offsets_placesAll ts hx))
    refine hp.imp_of_mem fun hp hq hpq ↦ ?_
    exact (exact_of_mem_placesAll ts hx _ hp).atMost (exact_of_mem_placesAll ts hx _ hq) hpq
  · intro p hp q hq
    obtain rfl := List.mem_singleton.1 hq
    have hp := exact_of_mem_placesAll ts hx p hp
    exact hp.atMost (Extent.exact_iff.1 he).1 (hp.offset_le.trans_eq hn.symm)

/-- A string and a comment with line ends inside, in nested groups. -/
theorem positions_of_read_multiline :
    ∃ ts, read none "(\"é\n\" /* \r\n */ ['é'\n])\n" = .ok ts ∧
      ts.map span = [⟨none, some 1, some 1, some 4, some 3⟩] ∧
        (leavesAll ts).map span =
          [⟨none, some 1, some 2, some 2, some 2⟩, ⟨none, some 3, some 6, some 3, some 9⟩] ∧
        (∀ t ∈ ts, t.Exact "(\"é\n\" /* \r\n */ ['é'\n])\n".toList) ∧
          ((Extent.endOf none "(\"é\n\" /* \r\n */ ['é'\n])\n".toList).Exact
              "(\"é\n\" /* \r\n */ ['é'\n])\n".toList ∧
            (Extent.endOf none "(\"é\n\" /* \r\n */ ['é'\n])\n".toList).start =
                "(\"é\n\" /* \r\n */ ['é'\n])\n".toList.length ∧
              (Extent.endOf none "(\"é\n\" /* \r\n */ ['é'\n])\n".toList).stop =
                "(\"é\n\" /* \r\n */ ['é'\n])\n".toList.length) ∧
            (placesAll ts ++
              [Place.endOf "(\"é\n\" /* \r\n */ ['é'\n])\n".toList]).Pairwise Place.AtMost := by
  have h : (read none "(\"é\n\" /* \r\n */ ['é'\n])\n").toOption.map
      (fun ts ↦ (ts.map span, (leavesAll ts).map span)) =
        some ([⟨none, some 1, some 1, some 4, some 3⟩],
          [⟨none, some 1, some 2, some 2, some 2⟩, ⟨none, some 3, some 6, some 3, some 9⟩]) := by
    decide +kernel
  obtain ⟨ts, hr, hs⟩ := Option.map_eq_some_iff.1 h
  obtain ⟨hs, hl⟩ := Prod.mk.inj hs
  have hr := Except.toOption_eq_some_iff.1 hr
  exact ⟨ts, hr, hs, hl, positions_of_read hr⟩

end Tree

end ErrorDerive
