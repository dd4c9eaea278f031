import CiPipeline.Proofs.Job.LineKeys
import CiPipeline.Proofs.Node.Unambiguous
import CiPipeline.Proofs.Pipeline.Schema
import CiPipeline.Proofs.Pipeline.Sections

/-!
# Header lines

A document is `Headed` when its lines without a margin are the headers of its entries, one for each,
and all other lines are indented. That is so exactly when the names of jobs keep to a line, where
they have no margin of their own, and the names of their variables do (`headed_iff`): a key of
several lines puts its colon at the start of a line.
-/

namespace CiPipeline
open Text Mapping

namespace Node

/-! ### The lines of an entry -/

/-- A line that begins without a space. -/
def flush (line : List Char) : Bool := line.head? != some ' '

/-- What stands on the line of a key behind its colon. -/
def afterColon (value : Node) : List Char :=
  if value.isBlock then [] else ' ' :: value.lines.headD []

theorem keyed_lines_eq (key : List Char) (value : Node) : ∃ rest : List (List Char),
    keyed key value.isBlock value.lines = (key ++ ':' :: value.afterColon) :: rest.map ([' ', ' '] ++ ·) := by
  obtain ⟨line, rest, lines⟩ := List.exists_cons_of_ne_nil (lines_ne_nil value)
  rw [afterColon]
  cases value.isBlock with
  | true => exact ⟨value.lines, rfl⟩
  | false => exact ⟨rest, by simp [keyed_inline, lines]⟩

theorem filter_flush_keyed {key : List Char} (start : key.head? ≠ some ' ') (nonempty : key ≠ [])
    (value : Node) :
    (keyed key value.isBlock value.lines).filter flush = [key ++ ':' :: value.afterColon] := by
  obtain ⟨rest, shape⟩ := keyed_lines_eq key value
  obtain ⟨c, key, rfl⟩ := List.exists_cons_of_ne_nil nonempty
  have first : flush (c :: key ++ ':' :: value.afterColon) = true := by simpa [flush] using start
  have deeper : (rest.map ([' ', ' '] ++ ·)).filter flush = [] := by
    rw [List.filter_eq_nil_iff]
    intro line member
    obtain ⟨source, -, rfl⟩ := List.mem_map.mp member
    simp [flush]
  rw [shape, List.filter_cons_of_pos first, deeper]

theorem indented_of_mem_keyed {key : List Char} (start : key.head? ≠ some ' ') (nonempty : key ≠ [])
    {value : Node} {line : List Char} (member : line ∈ keyed key value.isBlock value.lines)
    (margin : flush line = false) : [' ', ' '] <+: line := by
  obtain ⟨rest, shape⟩ := keyed_lines_eq key value
  rw [shape] at member
  rcases List.mem_cons.mp member with rfl | member
  · obtain ⟨c, key, rfl⟩ := List.exists_cons_of_ne_nil nonempty
    exact absurd (by simpa [flush] using margin) start
  · obtain ⟨source, -, rfl⟩ := List.mem_map.mp member
    exact List.prefix_append _ _

/-! ### The text of a name -/

theorem layout_of_flat {s : String} (flat : '\n' ∉ s.toList) (level : Nat) :
    (str s).layout level = lineText s.toList :=
  layout_of_oneLine (n := str s) flat level

theorem layout_str_ne_nil (s : String) (level : Nat) : (str s).layout level ≠ [] := by
  by_cases flat : '\n' ∈ s.toList
  · simp [layout_of_feed flat, blockText]
  · rw [layout_of_flat flat]
    exact lineText_ne_nil _

/-- A text with a colon is written in quotes, and so the text of no name begins with one. -/
theorem head_layout_ne_colon (s : String) (level : Nat) : ((str s).layout level).head? ≠ some ':' := by
  by_cases flat : '\n' ∈ s.toList
  · simp [layout_of_feed flat, blockText]
  · rw [layout_of_flat flat, lineText]
    split
    · simp
    · split
      · simp [quotedText]
      next colonless => exact fun head => colonless (by simpa using List.mem_of_head? head)

theorem head_lineText_eq_space_iff {text : List Char} (visible : allBlank text = false) :
    (lineText text).head? = some ' ' ↔ text.head? = some ' ' ∧ ':' ∉ text := by
  rw [lineText, if_neg (Bool.eq_false_iff.mp visible)]
  split
  next colon =>
    have member : ':' ∈ text := by simpa using colon
    simp [quotedText, member]
  next colonless =>
    have absent : ':' ∉ text := by simpa using colonless
    simp [absent]

/-- The colon behind a key of several lines begins a line. -/
theorem infix_entryText_of_feed {s : String} (feed : '\n' ∈ s.toList) (value : Node) (level : Nat) :
    ['\n', ':'] <:+: entryText level (str s, value) := by
  obtain ⟨front, closed⟩ : ∃ front, blockText s.toList (level + 1) = front ++ ['\n'] := ⟨_, rfl⟩
  rw [entryText, layout_of_feed feed, closed]
  exact ⟨front, _, by rw [List.append_assoc, List.append_assoc]; rfl⟩

end Node

namespace Pipeline
open Node

/-- A name on one line, which has no margin where it is not in quotes. -/
def LineName (name : String) : Prop :=
  '\n' ∉ name.toList ∧ (name.toList.head? = some ' ' → ':' ∈ name.toList)

instance (name : String) : Decidable (LineName name) := inferInstanceAs (Decidable (_ ∧ _))

/-- The lines without a margin are that of the stages, when there are any, and behind it one for each
job, which begins with the text of its name and a colon. All other lines are indented. -/
structure Headed (p : Pipeline) : Prop where
  headers : ∃ rest : Job → List Char, (closedLines p.render.toList).filter flush =
    (if p.stages.isEmpty then [] else ["stages:".toList]) ++
      p.jobs.map fun job => (str job.name).layout 0 ++ ':' :: rest job
  indented : ∀ line ∈ closedLines p.render.toList, flush line = false → [' ', ' '] <+: line

/-! ### Names that keep to a line -/

def sectionLines (field : String × Node) : List (List Char) :=
  keyed (lineText field.1.toList) field.2.isBlock field.2.lines

theorem closedLines_render {p : Pipeline} (registered : Registered p) (nonempty : p.Nonempty)
    (unshadowed : p.Unshadowed) (names : ∀ job ∈ p.jobs, '\n' ∉ job.name.toList)
    (vars : ∀ job ∈ p.jobs, ∀ named ∈ job.vars.entries, '\n' ∉ named.1.toList) :
    closedLines p.render.toList = p.sections.flatMap sectionLines := by
  have entries := toNode_eq_map registered unshadowed
  have keys : (toNode p).LineKeys := by
    rw [entries]
    refine lineKeys_pairs (forall_mem_sections (show '\n' ∉ "stages".toList by decide) names)
      (forall_mem_sections (lineKeys_strings _) fun job member => ?_)
    exact Job.lineKeys_toNode (wellFormed_of_registered registered member) (vars job member)
  rw [render, toList_document, documentText_eq_unlines keys, closedLines_unlines (feed_notMem_lines keys),
    entries, lines_map (pairs_sections_ne_nil nonempty), entryLines_eq_flatMap, pairs, List.flatMap_map]
  rfl

theorem head_lineText_ne_space {name : String} (keeps : LineName name)
    (visible : allBlank name.toList = false) : (lineText name.toList).head? ≠ some ' ' := by
  rw [ne_eq, head_lineText_eq_space_iff visible, not_and, Classical.not_not]
  exact keeps.2

theorem filter_flush_sections {p : Pipeline}
    (starts : ∀ field ∈ p.sections, (lineText field.1.toList).head? ≠ some ' ') :
    (p.sections.flatMap sectionLines).filter flush =
      p.sections.map fun field => lineText field.1.toList ++ ':' :: field.2.afterColon := by
  rw [List.filter_flatMap, List.map_eq_flatMap, List.flatMap_def, List.flatMap_def]
  congr 1
  exact List.map_congr_left fun field member =>
    filter_flush_keyed (starts field member) (lineText_ne_nil _) field.2

theorem header_stages {p : Pipeline} (staged : p.stages.isEmpty = false) :
    lineText "stages".toList ++ ':' :: (toNode p.stages.toList).afterColon = "stages:".toList := by
  have block : (toNode p.stages.toList).isBlock = true := by
    simpa [isBlock, OrderedSet.isEmpty] using staged
  rw [afterColon, if_pos block]
  decide

theorem headed_of_lineNames {p : Pipeline} (registered : Registered p) (nonempty : p.Nonempty)
    (unshadowed : p.Unshadowed) (names : ∀ job ∈ p.jobs, LineName job.name)
    (vars : ∀ job ∈ p.jobs, ∀ named ∈ job.vars.entries, '\n' ∉ named.1.toList) : p.Headed := by
  have lines := closedLines_render registered nonempty unshadowed (fun job member => (names job member).1) vars
  have starts : ∀ field ∈ p.sections, (lineText field.1.toList).head? ≠ some ' ' :=
    forall_mem_sections (show (lineText "stages".toList).head? ≠ some ' ' by decide) fun job member =>
      head_lineText_ne_space (names job member) (registered.visible job member)
  refine ⟨⟨fun job => (toNode job).afterColon, ?headers⟩, ?indented⟩
  case headers =>
    rw [lines, filter_flush_sections starts, sections, List.map_append, List.map_map]
    congr 1
    · cases empty : p.stages.isEmpty with
      | true => rfl
      | false => exact congrArg (fun line => [line]) (header_stages empty)
    · refine List.map_congr_left fun job member => ?_
      rw [layout_of_flat (names job member).1]
      rfl
  case indented =>
    intro line member margin
    rw [lines] at member
    obtain ⟨field, found, member⟩ := List.mem_flatMap.mp member
    exact indented_of_mem_keyed (starts field found) (lineText_ne_nil _) member margin

/-! ### Names that break a line -/

theorem render_eq_concat (p : Pipeline) : ∃ front, p.render.toList = front ++ ['\n'] := by
  rw [render, toList_document]
  exact endLine_eq_concat _

/-- A collection under a key of a job is laid out in the section of the job. -/
theorem infix_jobText {job : Job} {key : String} {value : Node} (field : (key, value) ∈ present job.fields)
    (block : value.isBlock = true) : value.layout 2 <:+: jobText job := by
  have entry : (str key, value) ∈ pairs (present job.fields) := List.mem_map_of_mem field
  have inJob : value.layout 2 <:+: (toNode job).layout 1 := by
    rw [job.toNode_eq_map]
    exact infix_layout_of_mem entry rfl block 1
  have inSection : (toNode job).layout 1 <:+: entryText 0 (str job.name, toNode job) :=
    infix_entryText (job.toNode_eq_map ▸ isBlock_of_mem entry) _ 0
  rw [jobText, sectionText, documentText_eq_flatMap (by simp) (by simp [isScalar, isCollection]),
    List.flatMap_singleton]
  exact (inJob.trans inSection).trans (prefix_endLine _).isInfix

theorem infix_jobText_of_feed {job : Job} {named : String × String} (member : named ∈ job.vars.entries)
    (feed : '\n' ∈ named.1.toList) : ['\n', ':'] <:+: jobText job := by
  have entry : (str named.1, str named.2) ∈
      pairs (job.vars.entries.map fun pair => (pair.1, str pair.2)) :=
    List.mem_map_of_mem (List.mem_map_of_mem member)
  have laid := infix_jobText (Job.variables_mem_present (List.ne_nil_of_mem member))
  rw [job.toNode_variables] at laid
  exact ((infix_entryText_of_feed feed _ 2).trans (infix_layout_map entry rfl 2)).trans
    (laid (isBlock_of_mem entry))

theorem lineNames_of_headed {p : Pipeline} (registered : Registered p) (headed : p.Headed) :
    ∀ job ∈ p.jobs, LineName job.name := by
  obtain ⟨⟨rest, headers⟩, -⟩ := headed
  intro job member
  have header : (str job.name).layout 0 ++ ':' :: rest job ∈ (closedLines p.render.toList).filter flush := by
    rw [headers]
    exact List.mem_append_right _ (List.mem_map_of_mem member)
  obtain ⟨line, begins⟩ := List.mem_filter.mp header
  have flat : '\n' ∉ job.name.toList := by
    intro feed
    refine feed_notMem_closedLines line ?_
    simp [layout_of_feed feed, blockText]
  refine ⟨flat, fun margin => Classical.not_not.mp fun colonless => ?_⟩
  have start := (head_lineText_eq_space_iff (registered.visible job member)).mpr ⟨margin, colonless⟩
  simp [layout_of_flat flat, flush, start] at begins

theorem flat_variables_of_headed {p : Pipeline} (registered : Registered p) (nonempty : p.Nonempty)
    (unshadowed : p.Unshadowed) (headed : p.Headed) :
    ∀ job ∈ p.jobs, ∀ named ∈ job.vars.entries, '\n' ∉ named.1.toList := by
  intro job member named var feed
  have colon : ['\n', ':'] <:+: p.render.toList := by
    rw [toList_render_eq_flatMap registered nonempty unshadowed]
    exact (infix_jobText_of_feed var feed).trans <|
      (List.infix_of_mem_flatten (List.mem_map_of_mem member)).trans (List.suffix_append _ _).isInfix
  -- the line that this colon begins has no margin, but no header begins with a colon
  obtain ⟨line, found, head⟩ := exists_closedLine colon (by decide) p.render_eq_concat
  obtain ⟨⟨rest, headers⟩, -⟩ := headed
  have header : line ∈ (closedLines p.render.toList).filter flush :=
    List.mem_filter.mpr ⟨found, by simp [flush, head]⟩
  rw [headers] at header
  rcases List.mem_append.mp header with first | header
  · split at first
    · cases first
    · rw [List.mem_singleton.mp first] at head
      revert head
      decide
  · obtain ⟨other, -, rfl⟩ := List.mem_map.mp header
    obtain ⟨c, text, laid⟩ := List.exists_cons_of_ne_nil (layout_str_ne_nil other.name 0)
    have start := head_layout_ne_colon other.name 0
    rw [laid] at head start
    exact start head

theorem headed_iff {p : Pipeline} (reachable : Reachable p) (nonempty : p.Nonempty)
    (unshadowed : p.Unshadowed) : p.Headed ↔ ∀ job ∈ p.jobs, LineName job.name ∧
      ∀ named ∈ job.vars.entries, '\n' ∉ named.1.toList := by
  have regs := registered reachable
  constructor
  · intro headed job member
    exact ⟨lineNames_of_headed regs headed job member,
      flat_variables_of_headed regs nonempty unshadowed headed job member⟩
  · intro names
    exact headed_of_lineNames regs nonempty unshadowed (fun job member => (names job member).1)
      fun job member => (names job member).2

/-- A name with a margin in quotes, a name that looks like an item, and texts of several lines. -/
def quotedMargin : List Declaration :=
  [.stage "build", .job " a:b" (some "build") [.setVariable "x" "1\n\n2", .coverage "\n"],
    .job "- c" none [.script .main [.shell ":\n: d"]]]

theorem headed_quotedMargin : Reachable (after {} quotedMargin) ∧ (after {} quotedMargin).Nonempty ∧
    (after {} quotedMargin).Unshadowed ∧ (after {} quotedMargin).Headed := by
  have reachable := reachable_after quotedMargin
  have nonempty : (after {} quotedMargin).Nonempty := .inl rfl
  have unshadowed : (after {} quotedMargin).Unshadowed := fun _ => by decide
  exact ⟨reachable, nonempty, unshadowed, (headed_iff reachable nonempty unshadowed).mpr (by decide)⟩

def variableOnTwoLines : List Declaration := [.job "a" none [.setVariable "x\ny" "1"]]

/-- The colon behind a variable whose name has two lines stands without a margin. -/
theorem not_headed_variableOnTwoLines : ¬ ∀ p, Reachable p → p.Nonempty →
    "stages" ∉ p.jobs.map (·.name) → p.Headed := by
  intro all
  obtain ⟨⟨rest, headers⟩, -⟩ :=
    all _ (reachable_after variableOnTwoLines) (.inr (List.cons_ne_nil _ _)) (by decide)
  have count := congrArg List.length headers
  rw [List.length_append, List.length_map] at count
  revert count
  decide

end Pipeline
end CiPipeline
