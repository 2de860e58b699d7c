import TimingCharts.Proofs.Loading

/-!
# What a loaded table says about its file

Loading stops at the first fault, so a table that was loaded tells a lot about its file: the
header row holds every column of the layout, and each record was read through these columns.
`samplesOf_eq_ok` lays a successful load out in these steps. `Rows` is what later proofs use
of it: the samples are those of the records, one after the other.
-/

namespace TimingCharts

/-! ## Successful steps -/

theorem bind_eq_ok {α β ε : Type} {x : Except ε α} {f : α → Except ε β} {b : β} :
    (x >>= f) = .ok b ↔ ∃ a, x = .ok a ∧ f a = .ok b := by
  cases x <;> simp [bind, Except.bind]

theorem pure_eq_ok {α ε : Type} {a b : α} : (pure a : Except ε α) = .ok b ↔ a = b := by
  simp [pure, Except.pure]

theorem mapError_eq_ok {α ε ε' : Type} {x : Except ε α} {f : ε → ε'} {a : α} :
    x.mapError f = .ok a ↔ x = .ok a := by
  cases x <;> simp [Except.mapError]

theorem mapM_eq_ok {α β ε : Type} {f : α → Except ε β} {as : List α} {bs : List β} :
    as.mapM f = .ok bs ↔ List.Forall₂ (fun a b => f a = .ok b) as bs := by
  refine ⟨fun h => ?_, mapM_of_ok⟩
  induction as generalizing bs with
  | nil =>
    rw [List.mapM_nil, pure_eq_ok] at h
    subst h
    exact .nil
  | cons a as ih =>
    simp only [List.mapM_cons, bind_eq_ok, pure_eq_ok] at h
    obtain ⟨b, hb, bs, hbs, rfl⟩ := h
    exact .cons hb (ih hbs)

theorem option_mapM_eq_ok {α β ε : Type} {f : α → Except ε β} {a? : Option α} {b? : Option β} :
    a?.mapM f = .ok b? ↔
      (a? = none ∧ b? = none) ∨ ∃ a b, a? = some a ∧ b? = some b ∧ f a = .ok b := by
  cases a? with
  | none => simp [Option.mapM_none, pure_eq_ok, eq_comm (a := b?)]
  | some a =>
    rw [Option.mapM_some]
    cases h : f a <;> simp [Functor.map, Except.map, h, eq_comm (a := b?)]

theorem exists_of_mem_forall₂ {α β : Type} {R : α → β → Prop} {as : List α} {bs : List β}
    (h : List.Forall₂ R as bs) {b : β} (hb : b ∈ bs) : ∃ a ∈ as, R a b := by
  induction h with
  | nil => cases hb
  | cons hr _ ih =>
    rcases List.mem_cons.mp hb with rfl | hb
    · exact ⟨_, List.mem_cons_self .., hr⟩
    · obtain ⟨a, ha, hr⟩ := ih hb
      exact ⟨a, List.mem_cons_of_mem _ ha, hr⟩

/-! ## Columns -/

theorem findColumn_eq_ok {headers : List String} {name : String} {column : Column}
    (h : Layout.findColumn headers name = .ok column) :
    name ∈ headers ∧ column = located headers name := by
  by_cases hn : name ∈ headers
  · rw [findColumn_of_mem hn] at h
    cases h
    exact ⟨hn, rfl⟩
  · unfold Layout.findColumn at h
    rw [List.idxOf?_eq_none_iff.mpr hn] at h
    cases h

theorem mapM_findColumn_eq_ok {headers names : List String} {columns : List Column}
    (h : names.mapM (Layout.findColumn headers) = .ok columns) :
    (∀ name ∈ names, name ∈ headers) ∧ columns = names.map (located headers) := by
  rw [mapM_eq_ok] at h
  induction h with
  | nil => simp
  | cons hc _ ih =>
    obtain ⟨hn, rfl⟩ := findColumn_eq_ok hc
    obtain ⟨hns, rfl⟩ := ih
    exact ⟨List.forall_mem_cons.mpr ⟨hn, hns⟩, rfl⟩

theorem option_mapM_findColumn_eq_ok {headers : List String} {name? : Option String}
    {column? : Option Column} (h : name?.mapM (Layout.findColumn headers) = .ok column?) :
    (∀ name ∈ name?, name ∈ headers) ∧ column? = name?.map (located headers) := by
  rcases option_mapM_eq_ok.mp h with ⟨rfl, rfl⟩ | ⟨name, column, rfl, rfl, hc⟩
  · simp
  · obtain ⟨hn, rfl⟩ := findColumn_eq_ok hc
    simp [hn]

theorem resolve_eq_ok {layout : Layout String} {headers : List String} {columns : Layout Column}
    (h : layout.resolve headers = .ok columns) :
    (∀ name ∈ layout.names, name ∈ headers) ∧ columns = layout.map (located headers) := by
  cases layout with
  | long size variant time threads =>
    simp only [Layout.resolve, Layout.mapM, bind_eq_ok, pure_eq_ok] at h
    obtain ⟨_, findSize, _, findVariant, _, findTime, _, findThreads, rfl⟩ := h
    obtain ⟨hs, rfl⟩ := findColumn_eq_ok findSize
    obtain ⟨hv, rfl⟩ := findColumn_eq_ok findVariant
    obtain ⟨ht, rfl⟩ := findColumn_eq_ok findTime
    obtain ⟨hn, rfl⟩ := option_mapM_findColumn_eq_ok findThreads
    simp only [Layout.names, List.forall_mem_cons, Option.mem_toList]
    exact ⟨⟨hs, hv, ht, hn⟩, rfl⟩
  | wide size variants threads =>
    simp only [Layout.resolve, Layout.mapM, bind_eq_ok, pure_eq_ok] at h
    obtain ⟨_, findSize, _, findVariants, _, findThreads, rfl⟩ := h
    obtain ⟨hs, rfl⟩ := findColumn_eq_ok findSize
    obtain ⟨hv, rfl⟩ := mapM_findColumn_eq_ok findVariants
    obtain ⟨hn, rfl⟩ := option_mapM_findColumn_eq_ok findThreads
    simp only [Layout.names, List.forall_mem_cons, List.forall_mem_append, Option.mem_toList]
    exact ⟨⟨hs, hv, hn⟩, rfl⟩

/-! ## Cells -/

theorem readAs_eq_ok {α : Type} {c : Column} {read : List Char → Option α} {fields : List String}
    {value : α} : c.readAs read fields = .ok value ↔ read (c.cell fields).toList = some value := by
  unfold Column.readAs
  cases read (c.cell fields).toList <;> simp

theorem readThreads_ne_zero {text : List Char} {n : UInt32} (h : readThreads text = some n) :
    n ≠ 0 := by
  unfold readThreads at h
  simpa using (Option.filter_eq_some_iff.mp h).2

namespace Layout

def threads {χ : Type} : Layout χ → Option χ
  | .long _ _ _ threads => threads
  | .wide _ _ threads => threads

def CountOf {χ : Type} (layout : Layout χ) (count : Option UInt32) : Prop :=
  match layout.threads with
  | none => count = none
  | some _ => ∃ n, count = some n ∧ n ≠ 0

theorem countOf_of_mapM {χ : Type} {layout : Layout χ} {columns : Option Column}
    (hc : columns.isSome = layout.threads.isSome) {fields : List String} {count : Option UInt32}
    (h : columns.mapM (·.readAs readThreads fields) = .ok count) : layout.CountOf count := by
  unfold CountOf
  rcases option_mapM_eq_ok.mp h with ⟨rfl, rfl⟩ | ⟨column, n, rfl, rfl, hn⟩
  · cases ht : layout.threads with
    | none => rfl
    | some _ => simp [ht] at hc
  · cases ht : layout.threads with
    | none => simp [ht] at hc
    | some _ => exact ⟨n, rfl, readThreads_ne_zero (readAs_eq_ok.mp hn)⟩

theorem samples_long_eq_ok {size variant time : Column} {threads : Option Column}
    {fields : List String} {row : List (Sample Float)}
    (h : (Layout.long size variant time threads).samples fields = .ok row) :
    ∃ s t count, size.readAs readUInt64 fields = .ok s ∧ time.readAs readFloat fields = .ok t ∧
      threads.mapM (·.readAs readThreads fields) = .ok count ∧
      row = [⟨s, t, variant.cell fields, count⟩] := by
  simp only [samples, bind_eq_ok, pure_eq_ok] at h
  obtain ⟨s, hs, t, ht, count, hc, rfl⟩ := h
  exact ⟨s, t, count, hs, ht, hc, rfl⟩

theorem samples_wide_eq_ok {size : Column} {variants : List Column} {threads : Option Column}
    {fields : List String} {row : List (Sample Float)}
    (h : (Layout.wide size variants threads).samples fields = .ok row) :
    ∃ s count, size.readAs readUInt64 fields = .ok s ∧
      threads.mapM (·.readAs readThreads fields) = .ok count ∧
      List.Forall₂ (fun v x => ∃ t, v.readAs readFloat fields = .ok t ∧ x = ⟨s, t, v.name, count⟩)
        variants row := by
  simp only [samples, bind_eq_ok] at h
  obtain ⟨s, hs, count, hc, h⟩ := h
  refine ⟨s, count, hs, hc, (mapM_eq_ok.mp h).imp fun v x hx => ?_⟩
  simp only [bind_eq_ok, pure_eq_ok] at hx
  obtain ⟨t, ht, rfl⟩ := hx
  exact ⟨t, ht, rfl⟩

theorem countOf_of_samples {layout : Layout String} {f : String → Column} {fields : List String}
    {row : List (Sample Float)} (h : (layout.map f).samples fields = .ok row) :
    ∀ x ∈ row, layout.CountOf x.threads := by
  cases layout with
  | long size variant time threads =>
    obtain ⟨s, t, count, -, -, hc, rfl⟩ := samples_long_eq_ok h
    intro x hx
    rw [List.mem_singleton.mp hx]
    exact countOf_of_mapM (by simp [Layout.threads]) hc
  | wide size variants threads =>
    obtain ⟨s, count, -, hc, hrow⟩ := samples_wide_eq_ok h
    intro x hx
    obtain ⟨v, -, t, -, rfl⟩ := exists_of_mem_forall₂ hrow hx
    exact countOf_of_mapM (by simp [Layout.threads]) hc

end Layout

/-! ## Records -/

namespace Table

def ReadsRow (layout : Layout String) (headers : List String) (record : Delimited.Record)
    (row : List (Sample Float)) : Prop :=
  ∃ fields, texts record.position (record.fields.map (Text.trimBy isAsciiBlank)) = .ok fields ∧
    (layout.map (located headers)).samples fields = .ok row

theorem recordSamples_eq_ok {layout : Layout String} {headers : List String} {width : Nat}
    {record : Delimited.Record} {row : List (Sample Float)}
    (h : recordSamples (layout.map (located headers)) width record = .ok row) :
    ReadsRow layout headers record row := by
  unfold recordSamples at h
  by_cases hw : record.fields.length = width
  · rw [if_neg (not_not.mpr hw), bind_eq_ok] at h
    obtain ⟨fields, hf, h⟩ := h
    refine ⟨fields, hf, ?_⟩
    cases hs : (layout.map (located headers)).samples fields with
    | ok samples =>
      rw [hs] at h
      rw [pure_eq_ok.mp h]
    | error cell =>
      rw [hs] at h
      cases h
  · rw [if_pos hw] at h
    cases h

structure Rows (layout : Layout String) (headers : List String) (records : List Delimited.Record)
    (samples : List (Sample Float)) (rows : List (List (Sample Float))) : Prop where
  found : ∀ name ∈ layout.names, name ∈ headers
  read : List.Forall₂ (ReadsRow layout headers) records rows
  flatten : rows.flatten = samples
  filled : samples ≠ []

theorem samplesOf_eq_ok {layout : Layout String} {records : List Delimited.Record}
    {samples : List (Sample Float)} (h : samplesOf layout records = .ok samples) :
    ∃ header rest headers rows, records = header :: rest ∧
      texts header.position header.fields = .ok headers ∧
      Rows layout headers rest samples rows := by
  cases records with
  | nil =>
    simp only [samplesOf, bind_eq_ok] at h
    obtain ⟨_, -, h⟩ := h
    cases h
  | cons header rest =>
    simp only [samplesOf, samplesOf.columnsOf, bind_eq_ok, mapError_eq_ok] at h
    obtain ⟨headers, hh, columns, hc, rows, hr, h⟩ := h
    obtain ⟨found, rfl⟩ := resolve_eq_ok hc
    have read := (mapM_eq_ok.mp hr).imp fun record row => recordSamples_eq_ok
    by_cases empty : rows.flatten.isEmpty = true
    · rw [if_pos empty] at h
      cases h
    · rw [if_neg empty] at h
      have flat : rows.flatten = samples := pure_eq_ok.mp h
      subst flat
      exact ⟨header, rest, headers, rows, rfl, hh, found, read, rfl, mt List.isEmpty_iff.mpr empty⟩

theorem ofBytes_eq_ok {source : Path} {layout : Layout String} {bytes : List UInt8} {table : Table}
    (h : ofBytes source layout bytes = .ok table) :
    samplesOf layout (Delimited.records bytes) = .ok table.samples := by
  simp only [ofBytes, bind_eq_ok, pure_eq_ok] at h
  obtain ⟨samples, hs, rfl⟩ := h
  exact hs

theorem countOf_of_loaded {source : Path} {layout : Layout String} {bytes : List UInt8}
    {table : Table} (h : ofBytes source layout bytes = .ok table) :
    ∀ x ∈ table.samples, layout.CountOf x.threads := by
  intro x hx
  obtain ⟨header, rest, headers, rows, -, -, loaded⟩ := samplesOf_eq_ok (ofBytes_eq_ok h)
  rw [← loaded.flatten] at hx
  obtain ⟨row, hrow, hx⟩ := List.mem_flatten.mp hx
  obtain ⟨record, -, fields, -, hs⟩ := exists_of_mem_forall₂ loaded.read hrow
  exact Layout.countOf_of_samples hs x hx

theorem filled_of_loaded {source : Path} {layout : Layout String} {bytes : List UInt8}
    {table : Table} (h : ofBytes source layout bytes = .ok table) : table.samples ≠ [] := by
  obtain ⟨_, _, _, _, -, -, loaded⟩ := samplesOf_eq_ok (ofBytes_eq_ok h)
  exact loaded.filled

end Table

end TimingCharts
