import TimingCharts.Proofs.LoadedTables

/-!
# What a faulty file is refused for

Loading a file is a sequence of steps, and the first that fails decides the error. Which one that
is can be said without loading: `faultOf` gives the fault of a single record, and
`first_fault_decides` puts the columns, the records and the emptiness of a table in order.
-/

namespace TimingCharts

/-! ## The first step that fails -/

def errorOf {α ε : Type} : Except ε α → Option ε
  | .ok _ => none
  | .error e => some e

section
variable {α β ε : Type}

theorem errorOf_eq_some {x : Except ε α} {e : ε} : errorOf x = some e ↔ x = .error e := by
  cases x <;> simp [errorOf]

theorem errorOf_eq_none {x : Except ε α} : errorOf x = none ↔ ∃ a, x = .ok a := by
  cases x <;> simp [errorOf]

theorem errorOf_pure (a : α) : errorOf (pure a : Except ε α) = none := rfl

theorem errorOf_map (f : α → β) (x : Except ε α) : errorOf (f <$> x) = errorOf x := by
  cases x <;> rfl

theorem errorOf_bind {x : Except ε α} {f : α → Except ε β} {e? : Option ε}
    (h : ∀ a, errorOf (f a) = e?) : errorOf (x >>= f) = (errorOf x).or e? := by
  cases x with
  | error e => rfl
  | ok a => simpa [bind, Except.bind, errorOf] using h a

theorem findSome?_cons_eq_or (f : α → Option β) (a : α) (as : List α) :
    (a :: as).findSome? f = (f a).or (as.findSome? f) := by
  rw [List.findSome?_cons]
  cases f a <;> rfl

theorem errorOf_mapM (f : α → Except ε β) (as : List α) :
    errorOf (as.mapM f) = as.findSome? fun a => errorOf (f a) := by
  induction as with
  | nil => rfl
  | cons a as ih =>
    rw [List.mapM_cons, errorOf_bind fun _ => errorOf_bind fun _ => errorOf_pure _, ih,
      Option.or_none, findSome?_cons_eq_or]

theorem errorOf_option_mapM (f : α → Except ε β) (a? : Option α) :
    errorOf (a?.mapM f) = a?.toList.findSome? fun a => errorOf (f a) := by
  cases a? with
  | none => rfl
  | some a =>
    rw [Option.mapM_some, errorOf_map, Option.toList_some, List.findSome?_singleton]

end

/-! ## Columns -/

theorem errorOf_findColumn (headers : List String) (name : String) :
    errorOf (Layout.findColumn headers name) = Option.guard (· ∉ headers) name := by
  by_cases h : name ∈ headers
  · rw [findColumn_of_mem h]
    simp [errorOf, Option.guard, h]
  · unfold Layout.findColumn
    rw [List.idxOf?_eq_none_iff.mpr h]
    simp [errorOf, Option.guard, h]

theorem errorOf_layout_mapM {ψ ε : Type} (f : String → Except ε ψ) (layout : Layout String) :
    errorOf (layout.mapM f) = layout.names.findSome? fun name => errorOf (f name) := by
  cases layout with
  | long size variant time threads =>
    rw [Layout.mapM, errorOf_bind fun _ => errorOf_bind fun _ => errorOf_bind fun _ =>
      errorOf_bind fun _ => errorOf_pure _]
    simp only [Layout.names, findSome?_cons_eq_or, errorOf_option_mapM, Option.or_none]
  | wide size variants threads =>
    rw [Layout.mapM, errorOf_bind fun _ => errorOf_bind fun _ => errorOf_bind fun _ =>
      errorOf_pure _]
    simp only [Layout.names, findSome?_cons_eq_or, List.findSome?_append, errorOf_mapM,
      errorOf_option_mapM, Option.or_none]

theorem errorOf_resolve (layout : Layout String) (headers : List String) :
    errorOf (layout.resolve headers) = layout.names.find? (· ∉ headers) := by
  rw [Layout.resolve, errorOf_layout_mapM, ← List.findSome?_guard]
  congr 1
  funext name
  exact errorOf_findColumn headers name

/-! ## Fields -/

namespace Table

/-- What a field says: its text without white space around it. -/
def fieldText (field : List UInt8) : Option (List Char) :=
  (Text.decode field).toOption.map Text.trim

theorem fieldText_trimBy (field : List UInt8) :
    fieldText (Text.trimBy isAsciiBlank field) = fieldText field := by
  obtain ⟨left, right, hfield, hl, hr⟩ := Text.exists_trimBy isAsciiBlank field
  have blank {bytes : List UInt8} (h : ∀ b ∈ bytes, isAsciiBlank b = true) :
      ∀ c ∈ Text.asciiText bytes, Text.isBlank c = true := by
    intro c hc
    obtain ⟨b, hb, rfl⟩ := List.mem_map.mp hc
    have := toNat_lt_of_asciiBlank (h b hb)
    exact isBlank_of_asciiBlank (h b hb) (Text.toNat_ofNat (by omega))
  conv => rhs; rw [hfield]
  unfold fieldText
  rw [Text.toOption_decode_padded (fun b hb => toNat_lt_of_asciiBlank (hl b hb))
    fun b hb => toNat_lt_of_asciiBlank (hr b hb), Option.map_map]
  congr 1
  funext text
  exact (Text.trimBy_padding (blank hl) (blank hr) text).symm

/-- The first field that is no text, and the byte from which on it is none. -/
def firstNonText (fields : List (List UInt8)) : Option (Nat × Nat) :=
  fields.zipIdx.findSome? fun p => (errorOf (Text.decode p.1)).map (p.2, ·)

theorem isSome_fieldText {field : List UInt8} :
    (fieldText field).isSome ↔ ∃ text, field = Text.encode text := by
  simp only [← Text.decode_eq_ok_iff]
  unfold fieldText
  cases Text.decode field <;> simp [Except.toOption]

theorem firstNonText_eq_none {fields : List (List UInt8)} :
    firstNonText fields = none ↔ ∀ field ∈ fields, ∃ text, field = Text.encode text := by
  simp only [firstNonText, List.findSome?_eq_none_iff, Option.map_eq_none_iff, errorOf_eq_none,
    Text.decode_eq_ok_iff]
  constructor
  · intro h field hf
    obtain ⟨index, hi⟩ := List.mem_iff_getElem?.mp hf
    exact h (field, index) (List.mem_zipIdx_iff_getElem?.mpr hi)
  · intro h p hp
    exact h p.1 (List.mem_of_getElem? (List.mem_zipIdx_iff_getElem?.mp hp))

theorem errorOf_texts (position : Delimited.Position) (fields : List (List UInt8)) :
    errorOf (texts position fields) =
      (firstNonText fields).map fun p => .unreadable (.notText position p.1 p.2) := by
  have go (index : Nat) : errorOf (texts.go position index fields) =
      ((fields.zipIdx index).findSome? fun p => (errorOf (Text.decode p.1)).map (p.2, ·)).map
        fun p => .unreadable (.notText position p.1 p.2) := by
    induction fields generalizing index with
    | nil => rfl
    | cons field fields ih =>
      rw [texts.go, List.zipIdx_cons, findSome?_cons_eq_or]
      cases Text.decode field with
      | error byte => rfl
      | ok text =>
        dsimp only
        rw [errorOf_bind fun _ => errorOf_pure _, ih, Option.or_none]
        rfl
  exact go 0

theorem map_fieldText_of_go {position : Delimited.Position} {index : Nat}
    {fields : List (List UInt8)} {cells : List String}
    (h : texts.go position index fields = .ok cells) :
    fields.map fieldText = cells.map fun cell => some cell.toList := by
  induction fields generalizing cells index with
  | nil => cases h; rfl
  | cons field fields ih =>
    rw [texts.go] at h
    cases hd : Text.decode field with
    | error byte => simp [hd] at h
    | ok text =>
      simp only [hd, bind_eq_ok, pure_eq_ok] at h
      obtain ⟨cells, hc, rfl⟩ := h
      rw [List.map_cons, List.map_cons, ih hc, fieldText, hd, String.toList_ofList]
      rfl

theorem map_fieldText_of_texts {position : Delimited.Position} {fields : List (List UInt8)}
    {cells : List String} (h : texts position fields = .ok cells) :
    fields.map fieldText = cells.map fun cell => some cell.toList :=
  map_fieldText_of_go h

theorem length_of_texts {position : Delimited.Position} {fields : List (List UInt8)}
    {cells : List String} (h : texts position fields = .ok cells) :
    cells.length = fields.length := by
  have := congrArg List.length (map_fieldText_of_texts h)
  simpa using this.symm

def cellAt (headers : List String) (record : Delimited.Record) (name : String) :
    Option (List Char) :=
  record.fields[headers.idxOf name]?.bind fieldText

theorem cellAt_eq {headers : List String} {record : Delimited.Record} {cells : List String}
    (h : texts record.position (record.fields.map (Text.trimBy isAsciiBlank)) = .ok cells)
    (name : String) :
    cellAt headers record name = cells[headers.idxOf name]?.map String.toList := by
  have := congrArg (·[headers.idxOf name]?) (map_fieldText_of_texts h)
  simp only [List.map_map, List.getElem?_map, Function.comp_def, fieldText_trimBy] at this
  unfold cellAt
  cases hf : record.fields[headers.idxOf name]? <;> cases hc : cells[headers.idxOf name]? <;>
    simp_all

end Table

/-! ## Cells -/

inductive Kind where
  | size
  | time
  | count
  deriving DecidableEq

namespace Kind

/-- The texts that a column takes. A thread count is not zero. -/
def accepts : Kind → List Char → Bool
  | .size, text => (readUInt64 text).isSome
  | .time, text => (readFloat text).isSome
  | .count, text => (readUInt32 text).any (· != 0)

theorem accepts_size (text : List Char) : Kind.size.accepts text = (readUInt64 text).isSome := rfl

theorem accepts_time (text : List Char) : Kind.time.accepts text = (readFloat text).isSome := rfl

theorem accepts_count (text : List Char) : Kind.count.accepts text = (readThreads text).isSome := by
  simp only [accepts, readThreads]
  cases readUInt32 text with
  | none => rfl
  | some n => by_cases hn : n = 0 <;> simp [hn, Option.filter_some]

end Kind

/-- The columns of a layout in the order in which their cells are checked. -/
def Layout.checks : Layout String → List (String × Kind)
  | .long size _ time threads => (size, .size) :: (time, .time) :: threads.toList.map (·, .count)
  | .wide size variants threads =>
    (size, .size) :: (threads.toList.map (·, .count) ++ variants.map (·, .time))

namespace Table

def badCell (headers : List String) (record : Delimited.Record) (check : String × Kind) :
    Option BadCell := do
  let text ← cellAt headers record check.1
  if check.2.accepts text then none else some ⟨check.1, String.ofList text⟩

section
variable {headers cells : List String} {record : Delimited.Record}

theorem errorOf_readAs {α : Type} {read : List Char → Option α} {kind : Kind} {name : String}
    (hk : ∀ text, kind.accepts text = (read text).isSome)
    (hc : cellAt headers record name = some ((located headers name).cell cells).toList) :
    errorOf ((located headers name).readAs read cells) = badCell headers record (name, kind) := by
  simp only [Column.readAs, badCell, hc, hk, bind, Option.bind]
  cases read ((located headers name).cell cells).toList with
  | some value => rfl
  | none => simp [errorOf, located]

theorem findSome?_readAs {α : Type} {read : List Char → Option α} {kind : Kind}
    {names : List String}
    (hk : ∀ text, kind.accepts text = (read text).isSome)
    (hc : ∀ name ∈ names,
      cellAt headers record name = some ((located headers name).cell cells).toList) :
    (names.map (located headers)).findSome? (fun c => errorOf (c.readAs read cells)) =
      (names.map (·, kind)).findSome? (badCell headers record) := by
  induction names with
  | nil => rfl
  | cons name names ih =>
    obtain ⟨h, hs⟩ := List.forall_mem_cons.1 hc
    rw [List.map_cons, List.map_cons, findSome?_cons_eq_or, findSome?_cons_eq_or, ih hs,
      errorOf_readAs hk h]

theorem errorOf_samples {layout : Layout String}
    (hc : ∀ name ∈ layout.names,
      cellAt headers record name = some ((located headers name).cell cells).toList) :
    errorOf ((layout.map (located headers)).samples cells) =
      layout.checks.findSome? (badCell headers record) := by
  cases layout with
  | long size variant time threads =>
    simp only [Layout.names, List.forall_mem_cons] at hc
    obtain ⟨hs, -, ht, hn⟩ := hc
    rw [Layout.map, Layout.samples, errorOf_bind fun _ => errorOf_bind fun _ =>
      errorOf_bind fun _ => errorOf_pure _, errorOf_option_mapM, Option.toList_map,
      findSome?_readAs Kind.accepts_count hn, errorOf_readAs Kind.accepts_size hs,
      errorOf_readAs Kind.accepts_time ht, Option.or_none, Layout.checks,
      findSome?_cons_eq_or, findSome?_cons_eq_or]
  | wide size variants threads =>
    simp only [Layout.names, List.forall_mem_cons, List.forall_mem_append] at hc
    obtain ⟨hs, hv, hn⟩ := hc
    -- which variant is bad does not depend on the size and the count read before
    have times (n : UInt64) (count : Option UInt32) :
        errorOf ((variants.map (located headers)).mapM fun variant => do
          return (⟨n, ← variant.readAs readFloat cells, variant.name, count⟩ : Sample Float)) =
        (variants.map (·, .time)).findSome? (badCell headers record) := by
      rw [errorOf_mapM, ← findSome?_readAs Kind.accepts_time hv]
      congr 1
      funext variant
      rw [errorOf_bind fun _ => errorOf_pure _, Option.or_none]
    rw [Layout.map, Layout.samples, errorOf_bind fun _ => errorOf_bind fun _ => times _ _,
      errorOf_option_mapM, Option.toList_map, findSome?_readAs Kind.accepts_count hn,
      errorOf_readAs Kind.accepts_size hs, Layout.checks, findSome?_cons_eq_or,
      List.findSome?_append]

end

/-! ## Records -/

/-- Why a record is refused: it has another number of fields than the header, a field that is no
text, or a cell that does not hold what its column should. -/
def faultOf (layout : Layout String) (headers : List String) (record : Delimited.Record) :
    Option Fault :=
  if record.fields.length ≠ headers.length then
    some (.unreadable (.fieldCount record.position record.fields.length headers.length))
  else
    match firstNonText (record.fields.map (Text.trimBy isAsciiBlank)) with
    | some (field, byte) => some (.unreadable (.notText record.position field byte))
    | none => (layout.checks.findSome? (badCell headers record)).map fun cell =>
        .invalidValue record.position.line cell.column cell.value

def Malformed (headers : List String) (record : Delimited.Record) : Prop :=
  record.fields.length ≠ headers.length ∨ ∃ field ∈ record.fields, ∀ text, field ≠ Text.encode text

section
variable {layout : Layout String} {headers : List String} {record : Delimited.Record}

theorem cellAt_of_texts {cells : List String} (hw : record.fields.length = headers.length)
    (h : texts record.position (record.fields.map (Text.trimBy isAsciiBlank)) = .ok cells)
    {name : String} (hn : name ∈ headers) :
    cellAt headers record name = some ((located headers name).cell cells).toList := by
  have hlt : headers.idxOf name < cells.length := by
    rw [length_of_texts h, List.length_map, hw]
    exact List.idxOf_lt_length_of_mem hn
  rw [cellAt_eq h, Column.cell, located, List.getD_eq_getElem?_getD, List.getElem?_eq_getElem hlt]
  rfl

theorem errorOf_recordSamples (found : ∀ name ∈ layout.names, name ∈ headers) :
    errorOf (recordSamples (layout.map (located headers)) headers.length record) =
      faultOf layout headers record := by
  unfold recordSamples faultOf
  by_cases hw : record.fields.length = headers.length
  · rw [if_neg (not_not.mpr hw), if_neg (not_not.mpr hw)]
    have ht := errorOf_texts record.position (record.fields.map (Text.trimBy isAsciiBlank))
    cases hn : firstNonText (record.fields.map (Text.trimBy isAsciiBlank)) with
    | some p =>
      rw [hn, Option.map_some, errorOf_eq_some] at ht
      rw [ht]
      rfl
    | none =>
      rw [hn, Option.map_none, errorOf_eq_none] at ht
      obtain ⟨cells, ht⟩ := ht
      have hs := errorOf_samples fun name hm => cellAt_of_texts hw ht (found name hm)
      rw [ht, ← hs]
      dsimp only [bind, Except.bind]
      cases (layout.map (located headers)).samples cells <;> rfl
  · rw [if_pos hw, if_pos hw]
    rfl

theorem malformed_iff : Malformed headers record ↔
    ∃ cause, faultOf layout headers record = some (.unreadable cause) := by
  have texts : firstNonText (record.fields.map (Text.trimBy isAsciiBlank)) = none ↔
      ∀ field ∈ record.fields, ∃ text, field = Text.encode text := by
    simp only [firstNonText_eq_none, ← isSome_fieldText, List.forall_mem_map, fieldText_trimBy]
  unfold Malformed faultOf
  by_cases hw : record.fields.length = headers.length
  · rw [if_neg (not_not.mpr hw)]
    cases hn : firstNonText (record.fields.map (Text.trimBy isAsciiBlank)) with
    | some p =>
      have : ¬ ∀ field ∈ record.fields, ∃ text, field = Text.encode text := by
        rw [← texts, hn]
        simp
      simpa [hw] using this
    | none =>
      constructor
      · rintro (h | ⟨field, hf, h⟩)
        · exact absurd hw h
        · obtain ⟨text, ht⟩ := texts.mp hn field hf
          exact absurd ht (h text)
      · rintro ⟨cause, h⟩
        obtain ⟨cell, -, h⟩ := Option.map_eq_some_iff.mp h
        cases h
  · simp [hw]

theorem isSome_cellAt (h : ¬ Malformed headers record) {name : String} (hn : name ∈ headers) :
    (cellAt headers record name).isSome := by
  simp only [Malformed, not_or, not_not, not_exists, not_and, not_forall] at h
  obtain ⟨hw, ht⟩ := h
  have hlt : headers.idxOf name < record.fields.length := by
    rw [hw]
    exact List.idxOf_lt_length_of_mem hn
  rw [cellAt, List.getElem?_eq_getElem hlt, Option.bind_some, isSome_fieldText]
  exact ht _ (List.getElem_mem hlt)

end

/-! ## Files -/

/-- The names in the header row; an empty file has none. -/
def headerRow : List Delimited.Record → Except Fault (List String)
  | [] => .ok []
  | header :: _ => texts header.position header.fields

section
variable {layout : Layout String} {headers : List String} {records : List Delimited.Record}

theorem samplesOf_eq (readable : headerRow records = .ok headers) :
    samplesOf layout records = (do
      let columns ← samplesOf.columnsOf layout headers
      let rows ← records.tail.mapM (recordSamples columns headers.length)
      if rows.flatten.isEmpty then throw .empty
      return rows.flatten) := by
  cases records with
  | nil =>
    cases readable
    rfl
  | cons header body =>
    have hw := length_of_texts readable
    rw [headerRow] at readable
    rw [samplesOf, readable, hw]
    rfl

theorem samplesOf_of_unreadable {fault : Fault} (h : headerRow records = .error fault) :
    samplesOf layout records = .error fault := by
  cases records with
  | nil => cases h
  | cons header body =>
    rw [headerRow] at h
    rw [samplesOf, h]
    rfl

theorem unreadable_of_headerRow {fault : Fault} (h : headerRow records = .error fault) :
    ∃ cause, fault = .unreadable cause := by
  cases records with
  | nil => cases h
  | cons header body =>
    rw [headerRow, ← errorOf_eq_some, errorOf_texts] at h
    obtain ⟨p, -, rfl⟩ := Option.map_eq_some_iff.mp h
    exact ⟨_, rfl⟩

theorem samplesOf_of_missing (readable : headerRow records = .ok headers) {name : String}
    (h : layout.names.find? (· ∉ headers) = some name) :
    samplesOf layout records = .error (.missingColumn name) := by
  rw [← errorOf_resolve, errorOf_eq_some] at h
  rw [samplesOf_eq readable, samplesOf.columnsOf, h]
  rfl

theorem samplesOf_of_found (readable : headerRow records = .ok headers)
    (found : ∀ name ∈ layout.names, name ∈ headers) :
    samplesOf layout records = (do
      let rows ← records.tail.mapM (recordSamples (layout.map (located headers)) headers.length)
      if rows.flatten.isEmpty then throw .empty
      return rows.flatten) := by
  rw [samplesOf_eq readable, samplesOf.columnsOf, resolve_of_mem found]
  rfl

theorem samplesOf_of_fault (readable : headerRow records = .ok headers)
    (found : ∀ name ∈ layout.names, name ∈ headers) {fault : Fault}
    (h : records.tail.findSome? (faultOf layout headers) = some fault) :
    samplesOf layout records = .error fault := by
  have hm := errorOf_mapM (recordSamples (layout.map (located headers)) headers.length) records.tail
  simp only [errorOf_recordSamples found, h, errorOf_eq_some] at hm
  rw [samplesOf_of_found readable found, hm]
  rfl

theorem length_of_readsRow {record : Delimited.Record} {row : List (Sample Float)}
    (h : ReadsRow layout headers record row) : row.length = layout.timings.length := by
  obtain ⟨cells, -, h⟩ := h
  cases layout with
  | long size variant time threads =>
    obtain ⟨_, _, _, -, -, -, rfl⟩ := Layout.samples_long_eq_ok h
    rfl
  | wide size variants threads =>
    obtain ⟨_, _, -, -, hrow⟩ := Layout.samples_wide_eq_ok h
    rw [← hrow.length_eq, List.length_map]
    rfl

theorem samplesOf_of_sound (readable : headerRow records = .ok headers)
    (found : ∀ name ∈ layout.names, name ∈ headers)
    (h : records.tail.findSome? (faultOf layout headers) = none) :
    ∃ rows, List.Forall₂ (ReadsRow layout headers) records.tail rows ∧
      samplesOf layout records = if rows.flatten = [] then .error .empty else .ok rows.flatten := by
  have hm := errorOf_mapM (recordSamples (layout.map (located headers)) headers.length) records.tail
  simp only [errorOf_recordSamples found, h, errorOf_eq_none] at hm
  obtain ⟨rows, hm⟩ := hm
  refine ⟨rows, (mapM_eq_ok.mp hm).imp fun record row => recordSamples_eq_ok, ?_⟩
  rw [samplesOf_of_found readable found, hm]
  by_cases he : rows.flatten = []
  · rw [if_pos he]
    simp only [bind, Except.bind, he, List.isEmpty_nil]
    rfl
  · rw [if_neg he]
    simp only [bind, Except.bind, List.isEmpty_iff, he]
    rfl

end

theorem ofBytes_eq_error {source : Path} {layout : Layout String} {bytes : List UInt8}
    {fault : Fault} : ofBytes source layout bytes = .error fault ↔
      samplesOf layout (Delimited.records bytes) = .error fault := by
  unfold ofBytes
  cases samplesOf layout (Delimited.records bytes) <;> simp [bind, Except.bind, pure, Except.pure]

/-- Why a file with a readable header row is refused. The first column of the layout that the
header row lacks comes before all records; then the first faulty record decides, by its own form
before its cells; then a table without samples is empty. Every other file is loaded. A record that
has the form of the header has every cell of the layout. -/
theorem first_fault_decides (source : Path) (layout : Layout String) {bytes : List UInt8}
    {headers : List String} (readable : headerRow (Delimited.records bytes) = .ok headers) :
    let body := (Delimited.records bytes).tail
    let loaded := ofBytes source layout bytes
    (∀ name, layout.names.find? (· ∉ headers) = some name →
      loaded = .error (.missingColumn name)) ∧
    ((∀ name ∈ layout.names, name ∈ headers) →
      (∀ fault, body.findSome? (faultOf layout headers) = some fault → loaded = .error fault) ∧
      (body.findSome? (faultOf layout headers) = none →
        ∃ rows, List.Forall₂ (ReadsRow layout headers) body rows ∧
          (∀ row ∈ rows, row.length = layout.timings.length) ∧
          loaded = if rows.flatten = [] then .error .empty else .ok ⟨source, rows.flatten⟩) ∧
      ∀ record ∈ body,
        (Malformed headers record ↔
          ∃ cause, faultOf layout headers record = some (.unreadable cause)) ∧
        (¬ Malformed headers record →
          ∀ name ∈ layout.names, (cellAt headers record name).isSome)) := by
  intro body loaded
  refine ⟨?_, fun found => ⟨?_, ?_, ?_⟩⟩
  · intro name h
    exact ofBytes_eq_error.mpr (samplesOf_of_missing readable h)
  · intro fault h
    exact ofBytes_eq_error.mpr (samplesOf_of_fault readable found h)
  · intro h
    obtain ⟨rows, hrows, hs⟩ := samplesOf_of_sound readable found h
    refine ⟨rows, hrows, ?_, ?_⟩
    · intro row hrow
      obtain ⟨record, -, hread⟩ := exists_of_mem_forall₂ hrows hrow
      exact length_of_readsRow hread
    · simp only [loaded, ofBytes, hs]
      by_cases he : rows.flatten = [] <;> simp [he]
  · intro record _
    exact ⟨malformed_iff, fun h name hn => isSome_cellAt h (found name hn)⟩

theorem first_fault_decides_two_bad_cells :
    let bytes := Text.encode "n,method,time,threads\n1,a,2,1\n2,b, x ,0\n3\n".toList
    let layout := Layout.long "n" "method" "time" (some "threads")
    headerRow (Delimited.records bytes) = .ok ["n", "method", "time", "threads"] ∧
      ofBytes ⟨"t.csv"⟩ layout bytes = .error (.invalidValue 3 "time" "x") := by
  intro bytes layout
  have readable : headerRow (Delimited.records bytes) = .ok ["n", "method", "time", "threads"] := by
    decide +kernel
  have fault : (Delimited.records bytes).tail.findSome?
      (faultOf layout ["n", "method", "time", "threads"]) = some (.invalidValue 3 "time" "x") := by
    decide +kernel
  exact ⟨readable, ((first_fault_decides ⟨"t.csv"⟩ layout readable).2 (by decide)).1 _ fault⟩

end Table

end TimingCharts
