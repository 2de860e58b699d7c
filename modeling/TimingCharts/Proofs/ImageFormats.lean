import TimingCharts.Proofs.SafeRendering
import TimingCharts.Proofs.ScratchPaths

/-!
# The formats of charts

A chart has the format that the extension of its scratch path asks for. The mark in front of a name
leaves its extension as it is, unless the only dot of the name is its first character: such a name
has no extension, and the marked name has one. Main statement: `format_of_scratch`.
-/

namespace TimingCharts

namespace Path

theorem extensionOf_append (stem : List Char) {rest : List Char} (h : '.' ∉ rest) :
    extensionOf (stem ++ '.' :: rest) = if stem = [] then none else some rest := by
  have hrest : ∀ c ∈ rest.reverse, (c != '.') = true := fun c hc => by
    rw [bne_iff_ne]
    rintro rfl
    exact h (List.mem_reverse.mp hc)
  have hreverse : (stem ++ '.' :: rest).reverse = rest.reverse ++ '.' :: stem.reverse := by simp
  rw [extensionOf, hreverse, List.takeWhile_append_of_pos hrest, List.dropWhile_append_of_pos hrest]
  cases hs : stem.reverse with
  | nil =>
    rw [if_pos (List.reverse_eq_nil_iff.mp hs)]
    rfl
  | cons c before =>
    rw [if_neg fun h => by simp [h] at hs]
    simp

theorem extensionOf_of_plain {name : List Char} (h : '.' ∉ name) : extensionOf name = none := by
  have hdrop : name.reverse.dropWhile (· != '.') = [] := by
    rw [List.dropWhile_eq_nil_iff]
    intro c hc
    rw [bne_iff_ne]
    rintro rfl
    exact h (List.mem_reverse.mp hc)
  rw [extensionOf, hdrop]

theorem exists_last_dot {name : List Char} (h : '.' ∈ name) :
    ∃ stem rest, name = stem ++ '.' :: rest ∧ '.' ∉ rest := by
  obtain ⟨rest, stem, hname, hrest⟩ := List.eq_append_cons_of_mem (List.mem_reverse.mpr h)
  refine ⟨stem.reverse, rest.reverse, ?_, mt List.mem_reverse.mp hrest⟩
  rw [← List.reverse_reverse name, hname]
  simp

/-- Whether the only dot of the file name stands in front of it, and what follows that dot. -/
def HasFrontDot (p : Path) (rest : List Char) : Prop :=
  p.fileName? = some ('.' :: rest) ∧ '.' ∉ rest

theorem extension_scratch (p : Path) :
    p.scratch.extension? = extensionOf (scratchMark ++ p.fileName?.getD []) := by
  rw [extension?, fileName?_scratch]
  rfl

theorem HasFrontDot.extensions {p : Path} {rest : List Char} (h : p.HasFrontDot rest) :
    p.extension? = none ∧ p.scratch.extension? = some rest := by
  obtain ⟨hname, hrest⟩ := h
  constructor
  · rw [extension?, hname]
    exact extensionOf_append [] hrest
  · rw [extension_scratch, hname]
    exact extensionOf_append scratchMark hrest

theorem extensionOf_mark {name : List Char} (h : '.' ∉ name) :
    extensionOf (scratchMark ++ name) = none := by
  have hrest : '.' ∉ scratchMark.tail ++ name := by
    intro hdot
    rcases List.mem_append.mp hdot with hdot | hdot
    · exact absurd hdot (by decide)
    · exact h hdot
  exact extensionOf_append [] hrest

theorem extension_scratch_eq {p : Path} (h : ∀ rest, ¬ p.HasFrontDot rest) :
    p.scratch.extension? = p.extension? := by
  rw [extension_scratch, extension?]
  cases hname : p.fileName? with
  | none => exact extensionOf_mark List.not_mem_nil
  | some name =>
    rw [Option.getD_some, Option.bind_some]
    by_cases hdot : '.' ∈ name
    · obtain ⟨stem, rest, rfl, hrest⟩ := exists_last_dot hdot
      have hstem : stem ≠ [] := by
        rintro rfl
        exact h rest ⟨hname, hrest⟩
      rw [← List.append_assoc, extensionOf_append _ hrest, extensionOf_append _ hrest, if_neg hstem,
        if_neg (by simp [hstem])]
    · rw [extensionOf_mark hdot, extensionOf_of_plain hdot]

end Path

/-- A scratch path has the extension of its path, unless the only dot of the file name stands in
front of it: then the path has none, and what follows the dot becomes the extension. So a chart can
only be drawn if its path has the extension of a format, or a front dot and then that extension,
and it is drawn in that format. -/
theorem format_of_scratch (plot : Plot) (path : Path) (files : Files) :
    (path.scratch.extension? = path.extension? ↔ ∀ rest, ¬ path.HasFrontDot rest) ∧
    (∀ rest, path.HasFrontDot rest →
      path.extension? = none ∧ path.scratch.extension? = some rest) ∧
    ((plot.render path files).result = .ok () →
      ∃ (extension : List Char) (image : Image),
        (path.extension? = some extension ∨ path.HasFrontDot extension) ∧
          Image.Format.ofExtension? extension = some image.format ∧
          (plot.render path files).files.at? path = some (.file (.image image))) := by
  refine ⟨⟨fun heq rest hdot => ?_, Path.extension_scratch_eq⟩,
    fun _ => Path.HasFrontDot.extensions, fun h => ?_⟩
  · obtain ⟨hnone, hsome⟩ := hdot.extensions
    rw [hnone, hsome] at heq
    cases heq
  obtain ⟨format, hdraw, hat⟩ := Plot.image_of_render h
  obtain ⟨extension, hext, hformat⟩ := Option.bind_eq_some_iff.mp (Host.format_of_standard hdraw)
  refine ⟨extension, plot.image format, ?_, hformat, hat⟩
  by_cases hdot : ∃ rest, path.HasFrontDot rest
  · obtain ⟨rest, hdot⟩ := hdot
    rw [hdot.extensions.2] at hext
    exact .inr (Option.some.inj hext ▸ hdot)
  · rw [Path.extension_scratch_eq (not_exists.mp hdot)] at hext
    exact .inl hext

/-- A name with two dots in front keeps its extension; one with a single dot in front has none, and
yet a chart of that name is drawn. -/
theorem format_of_scratch_two_dots :
    let plot : Plot :=
      { scale := .linear, series := [(⟨"a", [(1, 1)]⟩, Style.ofPalette 0 .circle)] }
    let twoDots : Path := ⟨"out/..png"⟩
    let oneDot : Path := ⟨".png"⟩
    twoDots.scratch.extension? = twoDots.extension? ∧ twoDots.extension? = some "png".toList ∧
      oneDot.HasFrontDot "png".toList ∧
      (oneDot.extension? = none ∧ oneDot.scratch.extension? = some "png".toList) ∧
      (plot.render oneDot ⟨[], []⟩).result = .ok () ∧
      ∃ (extension : List Char) (image : Image),
        (oneDot.extension? = some extension ∨ oneDot.HasFrontDot extension) ∧
          Image.Format.ofExtension? extension = some image.format ∧
          (plot.render oneDot ⟨[], []⟩).files.at? oneDot = some (.file (.image image)) := by
  intro plot twoDots oneDot
  have hname : twoDots.fileName? = some "..png".toList := by decide
  have hfront : oneDot.HasFrontDot "png".toList := ⟨by decide, by decide⟩
  have hdrawn : (plot.render oneDot ⟨[], []⟩).result = .ok () := by decide +kernel
  have hone := format_of_scratch plot oneDot ⟨[], []⟩
  refine ⟨(format_of_scratch plot twoDots ⟨[], []⟩).1.mpr fun rest h => ?_, by decide, hfront,
    hone.2.1 _ hfront, hdrawn, hone.2.2 hdrawn⟩
  obtain ⟨hrest, hdot⟩ := h
  rw [hname] at hrest
  cases hrest
  exact hdot (by decide)

/-- The name `.png` has no extension and its scratch name has one, so that a chart of that name is
drawn although its path names no format. -/
theorem format_of_front_dot :
    let plot : Plot :=
      { scale := .linear, series := [(⟨"a", [(1, 1)]⟩, Style.ofPalette 0 .circle)] }
    let path : Path := ⟨".png"⟩
    path.fileName? = some ".png".toList ∧ path.extension? = none ∧
      path.scratch.extension? = some "png".toList ∧
      path.extension?.bind Image.Format.ofExtension? = none ∧
      (plot.render path ⟨[], []⟩).result = .ok () := by
  intro plot path
  exact ⟨by decide, by decide, by decide, by decide, by decide +kernel⟩

end TimingCharts
