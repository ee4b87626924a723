/-
UmansGate.Lib.EventStream — the event stream format (`text/event-stream`).

A stream is written in groups of lines, each ended by a blank line. A line
is a field `event` or `data`, with or without a space behind its colon, or one
that readers ignore: a comment or a field of another name. Its end is LF or
CR LF. The event of a group is the value of its last `event` line and the
values of its `data` lines, joined at line feeds; a group without a `data` line
gives none.

The second half is about readers that cut a text at two line feeds in a row:
what they see of the blocks are the runs of lines between the empty ones
(`writtenBlocks_unlines`), whatever the number of empty lines, and of a stream
the runs between the blank lines that end in LF alone (`Stream.foldl_blocks`).
-/
import UmansGate.Lib.Framing
import UmansGate.Lib.JsText

namespace UmansGate.Lib

namespace EventStream

/-! ## Streams -/

/-- The end of a line. -/
inductive Eol where
  | lf
  | crlf
  deriving DecidableEq, Repr

/-- What a line has before its line feed because of its end. -/
def Eol.cr : Eol → JsString
  | .lf => []
  | .crlf => [13]

/-- The value of a field as it is written behind the colon. Without the space
it does not begin with one, as a reader would take it for that space. -/
structure Value where
  text : JsString
  spaced : Bool
  single : ∀ u ∈ text, u ≠ 10 ∧ u ≠ 13
  legal : spaced = false → text.head? ≠ some 32

def Value.gap (v : Value) : JsString := if v.spaced then [32] else []

/-- The name of the field of a line. -/
def fieldName (line : JsString) : JsString := line.takeWhile (· ≠ 58)

/-- A comment, whose name is empty, or a field of another name. -/
structure Ignored where
  text : JsString
  nonempty : text ≠ []
  single : ∀ u ∈ text, u ≠ 10 ∧ u ≠ 13
  event : fieldName text ≠ js "event"
  data : fieldName text ≠ js "data"

inductive Field where
  | event (value : Value)
  | data (value : Value)
  | ignored (line : Ignored)

def Field.text : Field → JsString
  | .event v => js "event:" ++ v.gap ++ v.text
  | .data v => js "data:" ++ v.gap ++ v.text
  | .ignored line => line.text

structure Line where
  field : Field
  eol : Eol

/-- The line up to its line feed. -/
def Line.text (l : Line) : JsString := l.field.text ++ l.eol.cr

def Line.event? (l : Line) : Option JsString :=
  match l.field with
  | .event v => some v.text
  | _ => none

def Line.data? (l : Line) : Option JsString :=
  match l.field with
  | .data v => some v.text
  | _ => none

/-- Some lines and the blank line behind them. -/
structure Group where
  lines : List Line
  blank : Eol

/-- The name and the data of an event. -/
structure Event where
  name : JsString
  data : JsString

def Group.event? (g : Group) : Option Event :=
  match g.lines.filterMap Line.data? with
  | [] => none
  | d :: ds =>
    some ⟨((g.lines.filterMap Line.event?).getLast?).getD [], [10].intercalate (d :: ds)⟩

def Group.texts (g : Group) : List JsString := g.lines.map Line.text ++ [g.blank.cr]

/-- A stream; no event is left open at its end. -/
structure Stream where
  groups : List Group
  trailing : List Line
  closed : ∀ l ∈ trailing, l.data? = none

def Stream.events (s : Stream) : List Event := s.groups.filterMap Group.event?

/-- The lines up to their line feeds. -/
def Stream.texts (s : Stream) : List JsString :=
  s.groups.flatMap Group.texts ++ s.trailing.map Line.text

/-- The text of some lines. -/
def unlines (lines : List JsString) : JsString := lines.flatMap (· ++ [10])

def Stream.text (s : Stream) : JsString := unlines s.texts

/-! ## The runs of a stream -/

/-- The lines between two blank lines that end in LF alone, with the events
among them. -/
structure Run where
  lines : List Line
  events : List Event

/-- A group stands in the run of the next one, unless its blank line ends in
LF alone. -/
def Group.join (g : Group) (runs : List Run) : List Run :=
  match g.blank, runs with
  | .crlf, r :: rs => ⟨g.lines ++ r.lines, g.event?.toList ++ r.events⟩ :: rs
  | _, runs => ⟨g.lines, g.event?.toList⟩ :: runs

def Stream.runs (s : Stream) : List Run := s.groups.foldr Group.join [⟨s.trailing, []⟩]

/-! ## Cutting at two line feeds -/

theorem cut_append_of_not_mem {c : JsString} (h : (10 : UInt16) ∉ c) (t : JsString) :
    Framing.cut [10, 10] (c ++ t) = (Framing.cut [10, 10] t).map fun r => (c ++ r.1, r.2) := by
  induction c with
  | nil => simp
  | cons u c ih =>
    have hu : u ≠ 10 := fun heq => h (by simp [heq])
    have hnot : ¬ ([10, 10] : JsString).isPrefixOf (u :: (c ++ t)) = true := by
      simp [List.isPrefixOf, Ne.symm hu]
    rw [List.cons_append, Framing.cut, if_neg hnot, ih fun hm => h (List.mem_cons_of_mem u hm),
      Option.map_map]
    rfl

/-- Behind a line feed a line that is not empty goes into the block. -/
theorem cut_line {c : JsString} (hne : c ≠ []) (h : (10 : UInt16) ∉ c) (t : JsString) :
    Framing.cut [10, 10] (10 :: (c ++ 10 :: t)) =
      (Framing.cut [10, 10] (10 :: t)).map fun r => (10 :: c ++ r.1, r.2) := by
  cases c with
  | nil => exact absurd rfl hne
  | cons u c =>
    have hu : u ≠ 10 := fun heq => h (by simp [heq])
    have hnot : ¬ ([10, 10] : JsString).isPrefixOf (10 :: (u :: c ++ 10 :: t)) = true := by
      simp [List.isPrefixOf, Ne.symm hu]
    rw [Framing.cut, if_neg hnot, cut_append_of_not_mem h, Option.map_map]
    rfl

theorem unlines_cons_append (c : JsString) (p : List JsString) (t : JsString) :
    unlines (c :: p) ++ t = c ++ 10 :: (unlines p ++ t) := by
  simp [unlines]

/-- Behind a line feed all lines that are not empty go into the block. -/
theorem cut_unlines {p : List JsString} (hp : ∀ l ∈ p, l ≠ [] ∧ (10 : UInt16) ∉ l)
    (t : JsString) :
    Framing.cut [10, 10] (10 :: (unlines p ++ t)) =
      (Framing.cut [10, 10] (10 :: t)).map fun r => (p.flatMap (10 :: ·) ++ r.1, r.2) := by
  induction p with
  | nil => simp [unlines]
  | cons l p ih =>
    rw [unlines_cons_append, cut_line (hp l (by simp)).1 (hp l (by simp)).2,
      ih fun m hm => hp m (List.mem_cons_of_mem l hm), Option.map_map]
    simp [Function.comp_def]

/-- The lines up to an empty one go into the block. -/
theorem cut_lines {c : JsString} {p : List JsString} (hc : (10 : UInt16) ∉ c)
    (hp : ∀ l ∈ p, l ≠ [] ∧ (10 : UInt16) ∉ l) (t : JsString) :
    Framing.cut [10, 10] (unlines (c :: p) ++ t) =
      (Framing.cut [10, 10] (10 :: t)).map fun r => ([10].intercalate (c :: p) ++ r.1, r.2) := by
  rw [unlines_cons_append, cut_append_of_not_mem hc, cut_unlines hp, Option.map_map,
    intercalate_lf]
  simp [Function.comp_def]

theorem linesOf_intercalate {lines : List JsString} (hne : lines ≠ [])
    (h : ∀ l ∈ lines, (10 : UInt16) ∉ l) : linesOf ([10].intercalate lines) = lines :=
  List.splitOn_intercalate 10 h hne

theorem unlines_eq_intercalate (lines : List JsString) :
    unlines lines = [10].intercalate (lines ++ [[]]) := by
  induction lines with
  | nil => rfl
  | cons l lines ih =>
    rw [List.cons_append, List.intercalate_cons_of_ne_nil (by simp), ← ih]
    simp [unlines]

theorem linesOf_unlines {lines : List JsString} (h : ∀ l ∈ lines, (10 : UInt16) ∉ l) :
    linesOf (unlines lines) = lines ++ [[]] := by
  rw [unlines_eq_intercalate]
  refine linesOf_intercalate (by simp) fun l hl => ?_
  rcases List.mem_append.mp hl with hl | hl
  · exact h l hl
  · simp [List.mem_singleton.mp hl]

/-- The lines of a block but the empty ones. -/
def written (block : JsString) : List JsString := (linesOf block).filter (· ≠ [])

/-- The lines of some blocks but the empty ones, of each block that has some. -/
def writtenBlocks (blocks : List JsString) : List (List JsString) :=
  (blocks.map written).filter (· ≠ [])

theorem writtenBlocks_cons (block : JsString) (blocks : List JsString) :
    writtenBlocks (block :: blocks) =
      [written block].filter (· ≠ []) ++ writtenBlocks blocks := by
  rw [writtenBlocks, writtenBlocks, ← List.filter_append, List.map_cons, List.singleton_append]

theorem splitOn_append {xs : List JsString} (h : [] ∉ xs) (ys : List JsString) :
    (xs ++ ys).splitOn [] = (ys.splitOn []).modifyHead (xs ++ ·) := by
  induction xs with
  | nil => cases hys : ys.splitOn [] <;> simp [hys]
  | cons x xs ih =>
    have hx : x ≠ [] := fun heq => h (by simp [heq])
    rw [List.cons_append, List.splitOn_cons_eq_if_modifyHead, if_neg (by simpa using hx),
      ih fun hm => h (List.mem_cons_of_mem x hm)]
    cases ys.splitOn [] <;> simp

/-- The blocks of lines, some of which are pending, are the runs between the
empty ones. -/
theorem writtenBlocks_unlines {lines pending blocks : List JsString} {rest : JsString}
    (hpending : ∀ l ∈ pending.tail, l ≠ []) (h : ∀ l ∈ pending ++ lines, (10 : UInt16) ∉ l)
    (hframed : Framing.Framed [10, 10] (unlines (pending ++ lines)) blocks rest) :
    writtenBlocks (blocks ++ [rest]) =
      ((lines.splitOn []).modifyHead (pending.filter (· ≠ []) ++ ·)).filter (· ≠ []) := by
  induction lines generalizing pending blocks rest with
  | nil =>
    have hcut : Framing.cut [10, 10] (unlines (pending ++ [])) = none := by
      cases pending with
      | nil => rfl
      | cons c p =>
        have hp : ∀ l ∈ p, l ≠ [] ∧ (10 : UInt16) ∉ l :=
          fun l hl => ⟨hpending l hl, h l (by simp [hl])⟩
        have hlines := cut_lines (h c (by simp)) hp []
        rw [List.append_nil] at hlines ⊢
        rw [hlines]
        rfl
    obtain ⟨rfl, rfl⟩ := hframed.unique (.rest hcut)
    rw [List.append_nil] at h ⊢
    simp [writtenBlocks, written, linesOf_unlines h]
  | cons c lines ih =>
    by_cases hbreak : c = [] ∧ pending ≠ []
    · obtain ⟨rfl, hne⟩ := hbreak
      obtain ⟨d, p, rfl⟩ := List.exists_cons_of_ne_nil hne
      have hp : ∀ l ∈ p, l ≠ [] ∧ (10 : UInt16) ∉ l :=
        fun l hl => ⟨hpending l hl, h l (by simp [hl])⟩
      have htext : unlines (d :: p ++ [] :: lines) = unlines (d :: p) ++ 10 :: unlines lines := by
        simp [unlines]
      have hcut : Framing.cut [10, 10] (unlines (d :: p ++ [] :: lines)) =
          some ([10].intercalate (d :: p), unlines lines) := by
        rw [htext, cut_lines (h d (by simp)) hp]
        simp [Framing.cut, List.isPrefixOf]
      obtain ⟨blocks', rest', hmore⟩ : ∃ blocks' rest',
          Framing.Framed [10, 10] (unlines lines) blocks' rest' :=
        Framing.exists_framed (by simp) _
      obtain ⟨rfl, rfl⟩ := hframed.unique (.block hcut hmore)
      have hwhole : Framing.Framed [10, 10] (unlines ([] ++ lines)) blocks' rest := hmore
      have htail := ih (by simp) (fun l hl => h l (by
        simp only [List.nil_append] at hl
        simp [hl])) hwhole
      have hblock : written ([10].intercalate (d :: p)) = (d :: p).filter (· ≠ []) := by
        rw [written, linesOf_intercalate (by simp) fun l hl => h l (List.mem_append_left _ hl)]
      have hsame : (lines.splitOn []).modifyHead (([] : List JsString).filter (· ≠ []) ++ ·) =
          lines.splitOn [] := by
        cases lines.splitOn [] <;> simp
      rw [hsame] at htail
      rw [List.splitOn_cons_eq_if_modifyHead, if_pos (by rfl), List.modifyHead_cons,
        List.append_nil, List.cons_append, writtenBlocks_cons, hblock, htail, ← List.filter_append,
        List.singleton_append]
    · have hnext : ∀ l ∈ (pending ++ [c]).tail, l ≠ [] := by
        intro l hl
        cases pending with
        | nil => simp at hl
        | cons d p =>
          simp only [List.cons_append, List.tail_cons, List.mem_append, List.mem_singleton] at hl
          rcases hl with hl | rfl
          · exact hpending l hl
          · exact fun heq => hbreak ⟨heq, by simp⟩
      rw [List.append_cons] at hframed h
      rw [ih hnext h hframed, List.splitOn_cons_eq_if_modifyHead]
      cases c with
      | nil =>
        obtain rfl : pending = [] := by
          by_contra hne
          exact hbreak ⟨rfl, hne⟩
        cases lines.splitOn [] <;> simp
      | cons u c => cases lines.splitOn [] <;> simp

/-! ## What readers of single lines see -/

theorem Field.text_ne_nil (f : Field) : f.text ≠ [] := by
  cases f with
  | event v =>
    rw [Field.text, List.append_assoc]
    exact List.append_ne_nil_of_left_ne_nil (by decide) _
  | data v =>
    rw [Field.text, List.append_assoc]
    exact List.append_ne_nil_of_left_ne_nil (by decide) _
  | ignored line => exact line.nonempty

theorem Line.text_ne_nil (l : Line) : l.text ≠ [] := by
  simp [Line.text, l.field.text_ne_nil]

theorem Eol.not_mem_cr (e : Eol) : (10 : UInt16) ∉ e.cr := by
  cases e <;> simp [Eol.cr]

theorem Line.not_mem_text (l : Line) : (10 : UInt16) ∉ l.text := by
  have hvalue : ∀ v : Value, (10 : UInt16) ∉ v.gap ++ v.text := by
    intro v hmem
    rcases List.mem_append.mp hmem with hgap | htext
    · unfold Value.gap at hgap
      split at hgap
      · simp at hgap
      · simp at hgap
    · exact (v.single 10 htext).1 rfl
  intro hmem
  rcases List.mem_append.mp hmem with hfield | hcr
  · cases hl : l.field with
    | event v =>
      rw [hl, Field.text, List.append_assoc, List.mem_append] at hfield
      rcases hfield with hname | hrest
      · revert hname
        decide
      · exact hvalue v hrest
    | data v =>
      rw [hl, Field.text, List.append_assoc, List.mem_append] at hfield
      rcases hfield with hname | hrest
      · revert hname
        decide
      · exact hvalue v hrest
    | ignored line =>
      rw [hl] at hfield
      exact (line.single 10 hfield).1 rfl
  · exact l.eol.not_mem_cr hcr

theorem Stream.not_mem_texts (s : Stream) : ∀ t ∈ s.texts, (10 : UInt16) ∉ t := by
  intro t ht
  rcases List.mem_append.mp ht with hgroups | htrailing
  · obtain ⟨g, -, hg⟩ := List.mem_flatMap.mp hgroups
    rcases List.mem_append.mp hg with hline | hblank
    · obtain ⟨l, -, rfl⟩ := List.mem_map.mp hline
      exact l.not_mem_text
    · rw [List.mem_singleton.mp hblank]
      exact g.blank.not_mem_cr
  · obtain ⟨l, -, rfl⟩ := List.mem_map.mp htrailing
    exact l.not_mem_text

theorem nil_not_mem_texts (ls : List Line) : [] ∉ ls.map Line.text := by
  intro hmem
  obtain ⟨l, -, hl⟩ := List.mem_map.mp hmem
  exact l.text_ne_nil hl

/-- Groups with some lines behind them. -/
theorem splitOn_groups (gs : List Group) (trailing : List Line) {p : JsString → Bool}
    (hcr : p [13] = false) :
    ((gs.flatMap Group.texts ++ trailing.map Line.text).splitOn []).map (List.filter p) =
      (gs.foldr Group.join [⟨trailing, []⟩]).map fun r => (r.lines.map Line.text).filter p := by
  induction gs with
  | nil => simp [List.splitOn_eq_singleton (nil_not_mem_texts trailing)]
  | cons g gs ih =>
    have htexts : (g :: gs).flatMap Group.texts ++ trailing.map Line.text =
        g.lines.map Line.text ++
          g.blank.cr :: (gs.flatMap Group.texts ++ trailing.map Line.text) := by
      simp [Group.texts]
    rw [htexts, splitOn_append (nil_not_mem_texts g.lines), List.foldr_cons,
      List.splitOn_cons_eq_if_modifyHead]
    cases hblank : g.blank with
    | lf =>
      simp only [Eol.cr, Group.join, hblank, BEq.rfl, if_true, List.modifyHead_cons,
        List.map_cons, ih, List.append_nil]
    | crlf =>
      have hne : (([13] : JsString) == []) = false := rfl
      simp only [Eol.cr, Group.join, hblank, hne, Bool.false_eq_true, if_false]
      cases hrest : (gs.flatMap Group.texts ++ trailing.map Line.text).splitOn [] with
      | nil => exact absurd hrest (List.splitOn_ne_nil _ _)
      | cons x xs =>
        rw [hrest] at ih
        cases hruns : gs.foldr Group.join [⟨trailing, []⟩] with
        | nil =>
          rw [hruns] at ih
          cases ih
        | cons r rs =>
          rw [hruns] at ih
          simp only [List.map_cons, List.cons.injEq] at ih
          simp [ih.1, ih.2, hcr]

/-- The lines between the empty ones are those of the runs, but for lines
that `p` does not take. -/
theorem Stream.splitOn_texts (s : Stream) {p : JsString → Bool} (hcr : p [13] = false) :
    (s.texts.splitOn []).map (List.filter p) =
      s.runs.map fun r => (r.lines.map Line.text).filter p :=
  splitOn_groups s.groups s.trailing hcr

/-- Lists without a line that counts change nothing. -/
theorem foldl_filter_ne_nil {σ : Type} {p : JsString → Bool} {handle : σ → List JsString → σ}
    (hidle : ∀ st, handle st [] = st) (ls : List (List JsString)) (st : σ) :
    ls.foldl (fun st l => handle st (l.filter p)) st =
      (ls.filter (· ≠ [])).foldl (fun st l => handle st (l.filter p)) st := by
  induction ls generalizing st with
  | nil => rfl
  | cons l ls ih =>
    cases l with
    | nil => simp [ih, hidle]
    | cons x l => simp [ih]

/-- A reader that folds blocks, and takes of each block the lines that `p`
takes, folds the runs. -/
theorem Stream.foldl_blocks {σ : Type} (s : Stream) {p : JsString → Bool}
    (handle : σ → List JsString → σ) (hnil : p [] = false) (hcr : p [13] = false)
    (hidle : ∀ st, handle st [] = st)
    {blocks : List JsString} {rest : JsString}
    (hframed : Framing.Framed [10, 10] s.text blocks rest) (st : σ) :
    (blocks ++ [rest]).foldl (fun st block => handle st ((linesOf block).filter p)) st =
      s.runs.foldl (fun st r => handle st ((r.lines.map Line.text).filter p)) st := by
  have hwritten : ∀ block, (written block).filter p = (linesOf block).filter p := by
    intro block
    rw [written, List.filter_filter]
    refine List.filter_congr fun l _ => ?_
    cases l with
    | nil => simp [hnil]
    | cons u l => simp
  have hwhole : Framing.Framed [10, 10] (unlines ([] ++ s.texts)) blocks rest := hframed
  have hblocks := writtenBlocks_unlines (by simp) (by simpa using s.not_mem_texts) hwhole
  have hsame : (s.texts.splitOn []).modifyHead (([] : List JsString).filter (· ≠ []) ++ ·) =
      s.texts.splitOn [] := by
    cases s.texts.splitOn [] <;> simp
  rw [hsame] at hblocks
  calc (blocks ++ [rest]).foldl (fun st block => handle st ((linesOf block).filter p)) st
      = ((blocks ++ [rest]).map written).foldl (fun st l => handle st (l.filter p)) st := by
        rw [List.foldl_map]
        simp only [hwritten]
    _ = (writtenBlocks (blocks ++ [rest])).foldl (fun st l => handle st (l.filter p)) st :=
        foldl_filter_ne_nil hidle _ st
    _ = (s.texts.splitOn []).foldl (fun st l => handle st (l.filter p)) st := by
        rw [hblocks, ← foldl_filter_ne_nil hidle]
    _ = ((s.texts.splitOn []).map (List.filter p)).foldl handle st := by rw [List.foldl_map]
    _ = s.runs.foldl (fun st r => handle st ((r.lines.map Line.text).filter p)) st := by
        rw [s.splitOn_texts hcr, List.foldl_map]

/-! ## Events and runs -/

theorem Stream.flatMap_runs (s : Stream) : s.runs.flatMap Run.events = s.events := by
  unfold Stream.runs Stream.events
  induction s.groups with
  | nil => rfl
  | cons g gs ih =>
    have hevent : (g :: gs).filterMap Group.event? =
        g.event?.toList ++ gs.filterMap Group.event? := by
      cases hg : g.event? <;> simp [hg]
    rw [hevent, ← ih, List.foldr_cons, Group.join.eq_def]
    split
    · rename_i hruns
      simp [hruns]
    · simp

/-- The lines of the runs are those of the groups, without the blank ones. -/
theorem Stream.flatMap_lines (s : Stream) :
    s.runs.flatMap Run.lines = s.groups.flatMap Group.lines ++ s.trailing := by
  unfold Stream.runs
  induction s.groups with
  | nil => simp
  | cons g gs ih =>
    rw [List.foldr_cons, List.flatMap_cons, List.append_assoc, ← ih, Group.join.eq_def]
    split
    · rename_i hruns
      simp [hruns]
    · simp

/-- A group without an event has no `data` line. -/
theorem Group.data?_eq_none {g : Group} (h : g.event? = none) : ∀ l ∈ g.lines, l.data? = none := by
  intro l hl
  unfold Group.event? at h
  split at h
  · rename_i hnil
    exact List.filterMap_eq_nil_iff.mp hnil l hl
  · cases h

theorem Group.data_of_event? {g : Group} {e : Event} (h : g.event? = some e) :
    e.data = [10].intercalate (g.lines.filterMap Line.data?) := by
  unfold Group.event? at h
  split at h
  · cases h
  · rename_i hdata
    cases h
    rw [hdata]

/-- A run without an event has no `data` line. -/
theorem Stream.data?_eq_none (s : Stream) :
    ∀ r ∈ s.runs, r.events = [] → ∀ l ∈ r.lines, l.data? = none := by
  unfold Stream.runs
  induction s.groups with
  | nil =>
    intro r hr _
    rw [List.foldr_nil, List.mem_singleton] at hr
    subst hr
    exact s.closed
  | cons g gs ih =>
    intro r hr hnone
    rw [List.foldr_cons, Group.join.eq_def] at hr
    split at hr
    · rename_i r' rs _ hruns
      rcases List.mem_cons.mp hr with rfl | hr
      · obtain ⟨hfirst, hrest⟩ := List.append_eq_nil_iff.mp hnone
        intro l hl
        rcases List.mem_append.mp hl with hl | hl
        · exact g.data?_eq_none (by simpa using hfirst) l hl
        · exact ih r' (by simp [hruns]) hrest l hl
      · exact ih r (by simp [hruns, hr]) hnone
    · rcases List.mem_cons.mp hr with rfl | hr
      · exact g.data?_eq_none (by simpa using hnone)
      · exact ih r hr hnone

end EventStream

end UmansGate.Lib
