import Mathlib.Data.List.Forall2
import TimingCharts.Proofs.NumberTexts
import TimingCharts.Proofs.Records
import TimingCharts.Table

/-!
# Loading written tables

An `Entry` is what one record of a results file says, and a layout decides which columns it
is written in and which samples it stands for. A text that writes a header row and entries is
loaded as exactly the samples of these entries, in order, whatever the order of the columns
and however the fields, the line ends and the blank lines are written.
-/

namespace TimingCharts

/-! ## Layouts and entries -/

namespace Layout

def names : Layout String → List String
  | .long size variant time threads => size :: variant :: time :: threads.toList
  | .wide size variants threads => size :: (variants ++ threads.toList)

def timings : Layout String → List String
  | .long _ _ time _ => [time]
  | .wide _ variants _ => variants

/-- The names can be told apart, and found again in a header row. -/
structure WellNamed (layout : Layout String) : Prop where
  distinct : layout.names.Nodup
  trimmed : ∀ name ∈ layout.names, Text.trim name.toList = name.toList
  unmarked : ∀ name ∈ layout.names, name.toList.head? ≠ some Delimited.byteOrderMark
  timed : layout.timings ≠ []

theorem WellNamed.two_le_length {layout : Layout String} (named : layout.WellNamed) :
    2 ≤ layout.names.length := by
  cases layout with
  | long => simp [names]
  | wide size variants threads =>
    have := List.length_pos_iff.2 named.timed
    simp only [timings] at this
    simp only [names, List.length_cons, List.length_append]
    omega

def map (f : String → Column) : Layout String → Layout Column
  | .long size variant time threads => .long (f size) (f variant) (f time) (threads.map f)
  | .wide size variants threads => .wide (f size) (variants.map f) (threads.map f)

end Layout

structure TimeText where
  text : List Char
  seconds : Float
  reads : readFloat text = some seconds

structure Entry where
  size : UInt64
  sizeZeros : Nat := 0
  variant : String
  time : String → TimeText
  threads : UInt32
  threadsZeros : Nat := 0
  trimmed : Text.trim variant.toList = variant.toList
  positive : threads ≠ 0

namespace Entry

def text (e : Entry) : Layout String → String → List Char
  | .long size variant time _, name =>
    if name = size then decimalText e.sizeZeros e.size.toNat
    else if name = variant then e.variant.toList
    else if name = time then (e.time name).text
    else decimalText e.threadsZeros e.threads.toNat
  | .wide size variants _, name =>
    if name = size then decimalText e.sizeZeros e.size.toNat
    else if name ∈ variants then (e.time name).text
    else decimalText e.threadsZeros e.threads.toNat

/-- The samples of an entry: one of its variant, or one for each timing column. -/
def samples (e : Entry) : Layout String → List (Sample Float)
  | .long _ _ time threads =>
    [⟨e.size, (e.time time).seconds, e.variant, threads.map fun _ => e.threads⟩]
  | .wide _ variants threads =>
    variants.map fun variant =>
      ⟨e.size, (e.time variant).seconds, variant, threads.map fun _ => e.threads⟩

theorem trim_text (e : Entry) (layout : Layout String) (name : String) :
    Text.trim (e.text layout name) = e.text layout name := by
  have time : Text.trim (e.time name).text = (e.time name).text :=
    trim_of_not_blank (not_blank_of_readFloat (e.time name).reads)
  cases layout with
  | long size variant timing threads =>
    rw [text]
    split
    · exact trim_decimalText _ _
    · split
      · exact e.trimmed
      · split
        · exact time
        · exact trim_decimalText _ _
  | wide size variants threads =>
    rw [text]
    split
    · exact trim_decimalText _ _
    · split
      · exact time
      · exact trim_decimalText _ _

theorem samples_ne_nil (e : Entry) {layout : Layout String} (h : layout.timings ≠ []) :
    e.samples layout ≠ [] := by
  cases layout with
  | long => simp [samples]
  | wide => simpa [samples, Layout.timings] using h

end Entry

/-! ## Fields -/

namespace Table

open Delimited (Padded)

theorem isBlank_space : Text.isBlank ' ' = true := by decide

theorem texts_go {contents : List (List Char)} {fields : List (List UInt8)}
    (h : List.Forall₂ Padded contents fields) (trimmed : ∀ c ∈ contents, Text.trim c = c)
    (position : Delimited.Position) (index : Nat) :
    texts.go position index fields = .ok (contents.map String.ofList) := by
  induction h generalizing index with
  | nil => rfl
  | @cons content field contents fields hp _ ih =>
    obtain ⟨ht, hts⟩ := List.forall_mem_cons.1 trimmed
    obtain ⟨before, after, rfl⟩ := hp
    have blank {n : Nat} : ∀ c ∈ Delimited.spaces n, Text.isBlank c = true := by
      intro c hc
      rw [List.eq_of_mem_replicate hc]
      exact isBlank_space
    have htrim : Text.trim (Delimited.spaces before ++ content ++ Delimited.spaces after) = content :=
      Text.trimBy_append blank blank ht
    rw [texts.go, Text.decode_encode]
    dsimp only
    rw [ih hts, htrim]
    rfl

theorem toNat_lt_of_asciiBlank {b : UInt8} (h : isAsciiBlank b = true) : b.toNat < 0x80 := by
  simp only [isAsciiBlank, Bool.or_eq_true, beq_iff_eq] at h
  rcases h with (((rfl | rfl) | rfl) | rfl) | rfl <;> decide

theorem isBlank_of_asciiBlank {b : UInt8} {c : Char} (h : isAsciiBlank b = true)
    (hc : c.toNat = b.toNat) : Text.isBlank c = true := by
  simp only [isAsciiBlank, Bool.or_eq_true, beq_iff_eq] at h
  unfold Text.isBlank
  rw [hc]
  rcases h with (((rfl | rfl) | rfl) | rfl) | rfl <;> decide

theorem trimBy_encode {content : List Char} (h : Text.trim content = content) :
    Text.trimBy isAsciiBlank (Text.encode content) = Text.encode content := by
  obtain ⟨first, last⟩ := Text.trimBy_eq_self_iff.1 h
  refine Text.trimBy_eq_self_iff.2 ⟨fun b hb => ?_, fun b hb => ?_⟩
  · by_contra hn
    rw [Bool.not_eq_false] at hn
    obtain ⟨c, hc, he⟩ := Text.head?_encode hb (toNat_lt_of_asciiBlank hn)
    exact absurd (isBlank_of_asciiBlank hn he) (by rw [first c hc]; exact Bool.false_ne_true)
  · by_contra hn
    rw [Bool.not_eq_false] at hn
    obtain ⟨c, hc, he⟩ := Text.getLast?_encode hb (toNat_lt_of_asciiBlank hn)
    exact absurd (isBlank_of_asciiBlank hn he) (by rw [last c hc]; exact Bool.false_ne_true)

theorem trimBy_padded {content : List Char} {field : List UInt8} (h : Padded content field)
    (ht : Text.trim content = content) :
    Text.trimBy isAsciiBlank field = Text.encode content := by
  obtain ⟨before, after, rfl⟩ := h
  have blank {n : Nat} : ∀ b ∈ Text.encode (Delimited.spaces n), isAsciiBlank b = true := by
    intro b hb
    obtain ⟨c, hc, hbc⟩ := List.mem_flatMap.1 hb
    rw [List.eq_of_mem_replicate hc, show String.utf8EncodeChar ' ' = [0x20] by decide,
      List.mem_singleton] at hbc
    rw [hbc]
    rfl
  rw [Text.encode_append, Text.encode_append]
  exact Text.trimBy_append blank blank (trimBy_encode ht)

end Table

/-! ## Columns -/

def located (columns : List String) (name : String) : Column := ⟨columns.idxOf name, name⟩

section
variable {columns : List String} {name : String}

theorem idxOf?_of_mem (h : name ∈ columns) : columns.idxOf? name = some (columns.idxOf name) := by
  induction columns with
  | nil => simp at h
  | cons column columns ih =>
    rw [List.idxOf?_cons, List.idxOf_cons]
    by_cases hc : column = name
    · simp [hc]
    · have hn : name ∈ columns := (List.mem_cons.1 h).resolve_left (Ne.symm hc)
      have hb : (column == name) = false := beq_false_of_ne hc
      simp [hb, ih hn]

theorem findColumn_of_mem (h : name ∈ columns) :
    Layout.findColumn columns name = .ok (located columns name) := by
  rw [Layout.findColumn, idxOf?_of_mem h]
  rfl

theorem cell_located (f : String → String) (h : name ∈ columns) :
    (located columns name).cell (columns.map f) = f name := by
  rw [Column.cell, located, List.getD_eq_getElem?_getD, List.getElem?_map,
    List.getElem?_idxOf h]
  rfl

theorem readAs_located {α : Type} {read : List Char → Option α} {f : String → List Char} {value : α}
    (h : name ∈ columns) (hr : read (f name) = some value) :
    (located columns name).readAs read (columns.map fun name => String.ofList (f name)) =
      .ok value := by
  rw [Column.readAs, cell_located _ h, String.toList_ofList, hr]

end

theorem mapM_of_ok {α β ε : Type} {f : α → Except ε β} {as : List α} {bs : List β}
    (h : List.Forall₂ (fun a b => f a = .ok b) as bs) : as.mapM f = .ok bs := by
  induction h with
  | nil => rfl
  | cons hf _ ih =>
    rw [List.mapM_cons, hf, ih]
    rfl

theorem mapM_of_forall {α β ε : Type} {f : α → Except ε β} {g : α → β} {as : List α}
    (h : ∀ a ∈ as, f a = .ok (g a)) : as.mapM f = .ok (as.map g) :=
  mapM_of_ok (List.forall₂_map_right_iff.2 (List.forall₂_same.2 h))

theorem option_mapM_of_forall {α β ε : Type} {f : α → Except ε β} {g : α → β} {a? : Option α}
    (h : ∀ a, a? = some a → f a = .ok (g a)) : a?.mapM f = .ok (a?.map g) := by
  cases a? with
  | none => rfl
  | some a =>
    rw [Option.mapM_some, h a rfl]
    rfl

theorem resolve_of_mem {layout : Layout String} {columns : List String}
    (h : ∀ name ∈ layout.names, name ∈ columns) :
    layout.resolve columns = .ok (layout.map (located columns)) := by
  have find {name : String} (hn : name ∈ layout.names) :=
    findColumn_of_mem (h name hn)
  cases layout with
  | long size variant time threads =>
    rw [Layout.resolve, Layout.mapM, find (by simp [Layout.names]), find (by simp [Layout.names]),
      find (by simp [Layout.names]),
      option_mapM_of_forall fun name hn => find (by simp [Layout.names, hn])]
    rfl
  | wide size variants threads =>
    rw [Layout.resolve, Layout.mapM, find (by simp [Layout.names]),
      mapM_of_forall fun name hn => find (by simp [Layout.names, hn]),
      option_mapM_of_forall fun name hn => find (by simp [Layout.names, hn])]
    rfl

/-! ## Records -/

namespace Entry

variable {columns : List String} (e : Entry)

def cells (layout : Layout String) (columns : List String) : List String :=
  columns.map fun name => String.ofList (e.text layout name)

theorem mapM_readThreads (layout : Layout String) (threads : Option String)
    (h : ∀ name, threads = some name →
      name ∈ columns ∧ e.text layout name = decimalText e.threadsZeros e.threads.toNat) :
    (threads.map (located columns)).mapM (·.readAs readThreads (e.cells layout columns)) =
      .ok (threads.map fun _ => e.threads) := by
  cases threads with
  | none => rfl
  | some name =>
    obtain ⟨hn, ht⟩ := h name rfl
    have hr : readThreads (e.text layout name) = some e.threads := by
      rw [ht, readThreads_decimalText _ e.positive]
    rw [Option.map_some, Option.mapM_some, cells, readAs_located hn hr]
    rfl

theorem samples_long {size variant time : String} {threads : Option String}
    (named : (Layout.long size variant time threads).WellNamed)
    (h : ∀ name ∈ (Layout.long size variant time threads).names, name ∈ columns) :
    ((Layout.long size variant time threads).map (located columns)).samples
        (e.cells (.long size variant time threads) columns) =
      .ok (e.samples (.long size variant time threads)) := by
  have distinct := named.distinct
  simp only [Layout.names, List.nodup_cons, List.mem_cons, not_or, Option.mem_toList] at distinct h
  obtain ⟨⟨hsv, hst, hsn⟩, ⟨hvt, hvn⟩, htn, -⟩ := distinct
  have readSize : readUInt64 (e.text (.long size variant time threads) size) = some e.size := by
    rw [text, if_pos rfl, readUInt64_decimalText]
  have readTime :
      readFloat (e.text (.long size variant time threads) time) = some (e.time time).seconds := by
    rw [text, if_neg (Ne.symm hst), if_neg (Ne.symm hvt), if_pos rfl, (e.time time).reads]
  have cellVariant : (located columns variant).cell
      (e.cells (.long size variant time threads) columns) = e.variant := by
    rw [cells, cell_located _ (h variant (by simp)), text, if_neg (Ne.symm hsv), if_pos rfl,
      String.ofList_toList]
  have textCount : ∀ name, threads = some name →
      e.text (.long size variant time threads) name =
        decimalText e.threadsZeros e.threads.toNat := by
    rintro name rfl
    simp only [Option.some.injEq] at hsn hvn htn
    rw [text, if_neg hsn, if_neg hvn, if_neg htn]
  have readCount := e.mapM_readThreads (.long size variant time threads) threads
    fun name hn => ⟨h name (by simp [hn]), textCount name hn⟩
  rw [Layout.map, Layout.samples, cellVariant, readCount, cells,
    readAs_located (h size (by simp)) readSize, readAs_located (h time (by simp)) readTime]
  rfl

theorem samples_wide {size : String} {variants : List String} {threads : Option String}
    (named : (Layout.wide size variants threads).WellNamed)
    (h : ∀ name ∈ (Layout.wide size variants threads).names, name ∈ columns) :
    ((Layout.wide size variants threads).map (located columns)).samples
        (e.cells (.wide size variants threads) columns) =
      .ok (e.samples (.wide size variants threads)) := by
  have distinct := named.distinct
  simp only [Layout.names, List.nodup_cons, List.mem_cons, List.mem_append, not_or,
    Option.mem_toList, List.nodup_append] at distinct h
  obtain ⟨⟨hsv, hsn⟩, -, -, hvn⟩ := distinct
  have readSize : readUInt64 (e.text (.wide size variants threads) size) = some e.size := by
    rw [text, if_pos rfl, readUInt64_decimalText]
  have readTime : ∀ variant ∈ variants,
      readFloat (e.text (.wide size variants threads) variant) =
        some (e.time variant).seconds := by
    intro variant hv
    have hne : variant ≠ size := by
      rintro rfl
      exact hsv hv
    rw [text, if_neg hne, if_pos hv, (e.time variant).reads]
  have textCount : ∀ name, threads = some name →
      e.text (.wide size variants threads) name =
        decimalText e.threadsZeros e.threads.toNat := by
    rintro name rfl
    simp only [Option.some.injEq] at hsn
    rw [text, if_neg hsn, if_neg fun hv => hvn name hv name rfl rfl]
  have readCount := e.mapM_readThreads (.wide size variants threads) threads
    fun name hn => ⟨h name (by simp [hn]), textCount name hn⟩
  rw [Layout.map, Layout.samples, readCount, cells, readAs_located (h size (by simp)) readSize]
  refine mapM_of_ok ?_
  rw [List.forall₂_map_left_iff, samples, List.forall₂_map_right_iff, List.forall₂_same]
  intro variant hv
  rw [readAs_located (h variant (by simp [hv])) (readTime variant hv)]
  rfl

theorem samples_cells {layout : Layout String} (named : layout.WellNamed)
    (h : ∀ name ∈ layout.names, name ∈ columns) :
    (layout.map (located columns)).samples (e.cells layout columns) = .ok (e.samples layout) := by
  cases layout with
  | long => exact e.samples_long named h
  | wide => exact e.samples_wide named h

end Entry

namespace Table

open Delimited (Padded)

variable {layout : Layout String} {columns : List String}

theorem recordSamples_entry (named : layout.WellNamed)
    (found : ∀ name ∈ layout.names, name ∈ columns) {e : Entry} {record : Delimited.Record}
    (h : List.Forall₂ Padded (columns.map (e.text layout)) record.fields) :
    recordSamples (layout.map (located columns)) columns.length record =
      .ok (e.samples layout) := by
  have width : record.fields.length = columns.length := by
    rw [← h.length_eq, List.length_map]
  have bare : List.Forall₂ Padded (columns.map (e.text layout))
      (record.fields.map (Text.trimBy isAsciiBlank)) := by
    rw [List.forall₂_map_left_iff] at h ⊢
    rw [List.forall₂_map_right_iff]
    refine h.imp fun name field hp => ?_
    rw [trimBy_padded hp (e.trim_text layout name)]
    exact Delimited.padded_self _
  have cells : texts record.position (record.fields.map (Text.trimBy isAsciiBlank)) =
      .ok (e.cells layout columns) := by
    have trimmed : ∀ content ∈ columns.map (e.text layout), Text.trim content = content :=
      List.forall_mem_map.2 fun name _ => e.trim_text layout name
    rw [texts, texts_go bare trimmed, List.map_map]
    rfl
  unfold recordSamples
  rw [if_neg (not_not.2 width), cells]
  dsimp only [bind, Except.bind]
  rw [e.samples_cells named found]
  rfl

theorem samplesOf_entries (named : layout.WellNamed)
    (found : ∀ name ∈ layout.names, name ∈ columns)
    (trimmed : ∀ name ∈ columns, Text.trim name.toList = name.toList)
    {entries : List Entry} (filled : entries ≠ []) {records : List Delimited.Record}
    (h : List.Forall₂ (List.Forall₂ Padded)
      (columns.map String.toList :: entries.map fun e => columns.map (e.text layout))
      (records.map Delimited.Record.fields)) :
    samplesOf layout records = .ok (entries.flatMap (·.samples layout)) := by
  cases records with
  | nil => cases h
  | cons header rows =>
    obtain ⟨hheader, hrows⟩ := List.forall₂_cons.1 h
    have headers : texts header.position header.fields = .ok columns := by
      rw [texts, texts_go hheader (List.forall_mem_map.2 trimmed)]
      simp [List.map_map]
    have width : header.fields.length = columns.length := by
      rw [← hheader.length_eq, List.length_map]
    have samples : rows.mapM (recordSamples (layout.map (located columns)) columns.length) =
        .ok (entries.map (·.samples layout)) := by
      refine mapM_of_ok ?_
      rw [List.forall₂_map_left_iff, List.forall₂_map_right_iff] at hrows
      rw [List.forall₂_map_right_iff]
      exact hrows.flip.imp fun row e hrow => recordSamples_entry named found hrow
    have hne : (entries.map (·.samples layout)).flatten.isEmpty = false := by
      obtain ⟨e, rest, rfl⟩ := List.exists_cons_of_ne_nil filled
      simp [e.samples_ne_nil named.timed]
    rw [samplesOf, headers]
    dsimp only [bind, Except.bind]
    rw [samplesOf.columnsOf, resolve_of_mem found]
    dsimp only [Except.mapError]
    rw [width, samples]
    dsimp only
    rw [hne]
    rfl

/-- A text that writes a header row and entries is loaded as the samples of the entries. -/
theorem ofBytes_written (source : Path) (named : layout.WellNamed)
    (order : columns.Perm layout.names) {entries : List Entry} (filled : entries ≠ [])
    {text : List Char}
    (written : Delimited.WritesLines
      (columns.map String.toList :: entries.map fun e => columns.map (e.text layout)) text) :
    ofBytes source layout (Text.encode text) =
      .ok ⟨source, entries.flatMap (·.samples layout)⟩ := by
  have two : 2 ≤ columns.length := by
    rw [order.length_eq]
    exact named.two_le_length
  have lines : ∀ contents ∈
      columns.map String.toList :: entries.map fun e => columns.map (e.text layout),
      2 ≤ contents.length := by
    rw [List.forall_mem_cons, List.forall_mem_map]
    exact ⟨by rwa [List.length_map], fun e _ => by rwa [List.length_map]⟩
  have unmarked : ∀ content ∈ columns.map String.toList,
      content.head? ≠ some Delimited.byteOrderMark :=
    List.forall_mem_map.2 fun name hn => named.unmarked name (order.mem_iff.1 hn)
  have hrecords := Delimited.records_written written lines unmarked
  rw [ofBytes, samplesOf_entries named (fun name => order.mem_iff.2)
    (fun name hn => named.trimmed name (order.mem_iff.1 hn)) filled hrecords]
  rfl

def quotedEntry : Entry where
  size := 7
  sizeZeros := 2
  variant := "a \"b\",\nc"
  time _ := ⟨['1', 'e', '-', '3'], Decimal.toFloat ⟨1, -3⟩, rfl⟩
  threads := 4
  trimmed := by decide
  positive := by decide

theorem ofBytes_written_quoted :
    ofBytes ⟨"t.csv"⟩ (.long "n" "method" "time" (some "threads"))
        (Text.encode
          "method, n,threads,\"time\"\r\n\r\n\"a \"\"b\"\",\nc\",007 ,4,1e-3\r".toList) =
      .ok ⟨⟨"t.csv"⟩, [⟨7, Decimal.toFloat ⟨1, -3⟩, "a \"b\",\nc", some 4⟩]⟩ := by
  have header : Delimited.WritesFields (["method", "n", "threads", "time"].map String.toList)
      "method, n,threads,\"time\"".toList :=
    .more (.raw 0 0 rfl) (.more (.raw 1 0 rfl) (.more (.raw 0 0 rfl) (.one .quoted)))
  have row : Delimited.WritesFields
      (["method", "n", "threads", "time"].map
        (quotedEntry.text (.long "n" "method" "time" (some "threads"))))
      "\"a \"\"b\"\",\nc\",007 ,4,1e-3".toList :=
    .more .quoted (.more (.raw 0 1 rfl) (.more (.raw 0 0 rfl) (.one (.raw 0 0 rfl))))
  have written : Delimited.WritesLines
      (["method", "n", "threads", "time"].map String.toList ::
        [quotedEntry].map fun e => ["method", "n", "threads", "time"].map
          (e.text (.long "n" "method" "time" (some "threads"))))
      "method, n,threads,\"time\"\r\n\r\n\"a \"\"b\"\",\nc\",007 ,4,1e-3\r".toList :=
    .line header .crlf [.crlf] (.line row .cr [] .none)
  exact ofBytes_written ⟨"t.csv"⟩ ⟨by decide, by decide, by decide, by decide⟩ (by decide)
    (by simp) written

end Table

end TimingCharts
