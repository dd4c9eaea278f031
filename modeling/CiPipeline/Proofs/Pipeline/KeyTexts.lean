import CiPipeline.Proofs.Node.Unambiguous
import CiPipeline.Proofs.Pipeline.Reachable

/-!
# Texts of keys

A string is written as a literal, in quotes or as it is, and its text tells the form: only a literal
has a line feed (`feed_mem_layout_iff`), and on one line only quotes stand around a colon
(`colon_mem_lineText_iff`). Strings with the same text are therefore the same, unless both are written
as a pair of quotes with nothing inside (`layout_str_eq_iff`). Of the jobs of a pipeline at most one has
a name like that, and so no two have the same key.
-/

namespace CiPipeline
open Text

namespace Node

/-- A blank text on one line, or the text that looks like what is written for one. -/
def LooksEmpty (s : String) : Prop :=
  (allBlank s.toList = true ∧ '\n' ∉ s.toList) ∨ s = "''"

/-! ### Quotes and literals -/

theorem quotedText_injective {first second : List Char} (same : quotedText first = quotedText second) :
    first = second := by
  have read := (reads_quotedText first).read (.inl rfl)
  rw [same, (reads_quotedText second).read (.inl rfl)] at read
  exact (String.ofList_inj.mp (Node.str.inj (Prod.mk.inj read).1)).symm

theorem colon_mem_quotedText_iff {text : List Char} : ':' ∈ quotedText text ↔ ':' ∈ text := by
  have kept : ∀ c : Char, ':' ∈ (if c = '\'' then ['\'', '\''] else [c]) ↔ c = ':' := by
    intro c
    split
    next quote => simp [quote]
    next => simp [eq_comm]
  simp [quotedText, kept]

theorem blockText_injective {first second : List Char} {level : Nat}
    (same : blockText first level = blockText second level) : first = second := by
  rw [blockText_eq, blockText_eq] at same
  have lines := unlines_injective (feed_notMem_hang_literalLines first level)
    (feed_notMem_hang_literalLines second level) same
  exact literalLines_injective (hang_injective lines)

/-! ### Texts on one line -/

theorem not_blank_of_colon {text : List Char} (colon : ':' ∈ text) : allBlank text = false :=
  List.all_eq_false.mpr ⟨':', colon, by decide⟩

theorem colon_mem_lineText_iff {text : List Char} : ':' ∈ lineText text ↔ ':' ∈ text := by
  unfold lineText
  split
  next blank =>
    have colonless : ':' ∉ text := fun colon => by simp [not_blank_of_colon colon] at blank
    simp [colonless]
  next =>
    split
    · exact colon_mem_quotedText_iff
    · exact Iff.rfl

/-- A text that is not blank keeps all that it holds. -/
theorem lineText_injective {first second : List Char} (visible : allBlank first = false)
    (visible' : allBlank second = false) (same : lineText first = lineText second) : first = second := by
  have colons : ':' ∈ first ↔ ':' ∈ second := by
    rw [← colon_mem_lineText_iff, same, colon_mem_lineText_iff]
  rw [lineText, lineText, visible, visible', if_neg Bool.false_ne_true, if_neg Bool.false_ne_true] at same
  by_cases colon : ':' ∈ first
  · rw [if_pos (by simpa using colon), if_pos (by simpa using colons.mp colon)] at same
    exact quotedText_injective same
  · rwa [if_neg (by simpa using colon), if_neg (by simpa using mt colons.mpr colon)] at same

theorem visible_of_lineText_ne {text : List Char} (differs : lineText text ≠ ['\'', '\'']) :
    allBlank text = false :=
  Bool.eq_false_iff.mpr fun blank => differs (if_pos blank)

theorem lineText_eq_quotes_iff {s : String} (flat : '\n' ∉ s.toList) :
    lineText s.toList = ['\'', '\''] ↔ LooksEmpty s := by
  cases blank : allBlank s.toList with
  | true => simp [lineText, LooksEmpty, blank, flat]
  | false =>
    have quotes : lineText ['\'', '\''] = ['\'', '\''] := by decide
    rw [LooksEmpty, blank]
    constructor
    · intro shown
      exact .inr (String.toList_inj.mp (lineText_injective blank (by decide) (shown.trans quotes.symm)))
    · rintro (⟨impossible, -⟩ | rfl)
      · cases impossible
      · exact quotes

/-! ### Texts of strings -/

theorem feed_mem_layout_iff {s : String} {level : Nat} :
    '\n' ∈ (str s).layout level ↔ '\n' ∈ s.toList := by
  by_cases feed : '\n' ∈ s.toList
  · simp [layout_of_feed feed, blockText, feed]
  · have oneLine : (str s).OneLine := feed
    rw [layout_of_oneLine oneLine]
    exact iff_of_false (feed_notMem_scalarText oneLine) feed

theorem LooksEmpty.layout {s : String} (empty : LooksEmpty s) (level : Nat) :
    (str s).layout level = ['\'', '\''] := by
  have flat : '\n' ∉ s.toList := by
    rcases empty with ⟨-, flat⟩ | rfl
    · exact flat
    · decide
  rw [layout_of_oneLine (n := str s) flat]
  exact (lineText_eq_quotes_iff flat).mpr empty

/-- Strings are written alike when they are the same, or when both look empty. -/
theorem layout_str_eq_iff {s t : String} {level : Nat} :
    (str s).layout level = (str t).layout level ↔ s = t ∨ (LooksEmpty s ∧ LooksEmpty t) := by
  constructor
  · intro same
    have feeds : '\n' ∈ s.toList ↔ '\n' ∈ t.toList := by
      rw [← feed_mem_layout_iff, same, feed_mem_layout_iff]
    by_cases feed : '\n' ∈ s.toList
    · rw [layout_of_feed feed, layout_of_feed (feeds.mp feed)] at same
      exact .inl (String.toList_inj.mp (blockText_injective same))
    · have flat := mt feeds.mpr feed
      rw [layout_of_oneLine (n := str s) feed, layout_of_oneLine (n := str t) flat] at same
      have texts : lineText s.toList = lineText t.toList := same
      by_cases quotes : lineText s.toList = ['\'', '\'']
      · exact .inr ⟨(lineText_eq_quotes_iff feed).mp quotes,
          (lineText_eq_quotes_iff flat).mp (texts.symm.trans quotes)⟩
      · have visible := visible_of_lineText_ne quotes
        have visible' := visible_of_lineText_ne (texts ▸ quotes)
        exact .inl (String.toList_inj.mp (lineText_injective visible visible' texts))
  · rintro (rfl | ⟨empty, empty'⟩)
    · rfl
    · rw [empty.layout, empty'.layout]

end Node

namespace Pipeline

/-- A name that looks empty without being blank is a pair of quotes. -/
theorem eq_quotes_of_looksEmpty {name : String} (visible : allBlank name.toList = false)
    (empty : Node.LooksEmpty name) : name = "''" := by
  rcases empty with ⟨blank, -⟩ | quotes
  · rw [visible] at blank
    cases blank
  · exact quotes

theorem name_injective_of_layout {name other : String} {level : Nat} (visible : allBlank name.toList = false)
    (visible' : allBlank other.toList = false)
    (same : (Node.str name).layout level = (Node.str other).layout level) : name = other := by
  rcases Node.layout_str_eq_iff.mp same with equal | ⟨empty, empty'⟩
  · exact equal
  · rw [eq_quotes_of_looksEmpty visible empty, eq_quotes_of_looksEmpty visible' empty']

/-- Only strings that look empty are written alike, and the jobs of a pipeline are not, in whatever place
their names stand as keys. -/
theorem render_str_eq_iff :
    (∀ (s t : String) (level : Nat), (Node.str s).render level = (Node.str t).render level ↔
      s = t ∨ (Node.LooksEmpty s ∧ Node.LooksEmpty t)) ∧
    ∀ p : Pipeline, Reachable p → ∀ level : Nat,
      (p.jobs.map fun job => (Node.str job.name).render level).Nodup := by
  refine ⟨fun s t level => ?_, fun p reachable level => ?_⟩
  · rw [Node.render, Node.render, String.ofList_inj]
    exact Node.layout_str_eq_iff
  · have registered := registered reachable
    have distinct := List.pairwise_map.mp registered.distinct
    refine List.pairwise_map.mpr (distinct.imp_of_mem fun {job other} member member' differs same => ?_)
    exact differs (name_injective_of_layout (registered.visible job member) (registered.visible other member')
      (String.ofList_inj.mp same))

/-- Names that look like what is written for one another, in quotes, as a literal and as they are. -/
def lookalikes : List Declaration :=
  [.job "''" none [], .job "a:b" none [], .job "'a:b'" none [], .job "|\n  x" none [], .job "x" none [],
    .job "\nx" none [], .job " x" none [], .job " " none []]

theorem render_lookalikes : Reachable (after {} lookalikes) ∧ (after {} lookalikes).jobs.length = 7 ∧
    ((after {} lookalikes).jobs.map fun job => (Node.str job.name).render 1).Nodup ∧
    (Node.str " \t").render 3 = (Node.str "''").render 3 := by
  obtain ⟨alike, apart⟩ := render_str_eq_iff
  have reachable := reachable_after lookalikes
  refine ⟨reachable, by decide, apart _ reachable 1, (alike " \t" "''" 3).mpr (.inr ⟨.inl ?_, .inr rfl⟩)⟩
  decide

end Pipeline
end CiPipeline
