import CiPipeline.Proofs.Job.Keys

/-!
# Allowed failures from their calls

A flag forgets the exit codes before it, and a code takes the place of the flag before it. So the last
flag and the codes behind it decide what is exported (`Heeded`), whatever was said before them
(`follows_last_flag`).
-/

namespace CiPipeline

namespace AllowFailure

/-! ### What the calls leave -/

def heedAll (held : Option AllowFailure) (said : List Allowance) : Option AllowFailure :=
  said.foldl (fun current next => some (heed current next)) held

theorem heedAll_append (held : Option AllowFailure) (said more : List Allowance) :
    heedAll held (said ++ more) = heedAll (heedAll held said) more := List.foldl_append

theorem heedAll_concat (held : Option AllowFailure) (said : List Allowance) (next : Allowance) :
    heedAll held (said ++ [next]) = some (heed (heedAll held said) next) := heedAll_append ..

/-- The list is empty or ends with a flag. -/
def FlagLast (said : List Allowance) : Prop := ∀ last ∈ said.getLast?, ∃ allowed, last = .flag allowed

/-- No codes are held behind a flag. -/
theorem plain_of_flagLast {said : List Allowance} (flagged : FlagLast said) :
    ∀ held ∈ heedAll none said, ∃ allowed, held = flag allowed := by
  intro held member
  rcases List.eq_nil_or_concat said with rfl | ⟨earlier, last, rfl⟩
  · cases member
  · obtain ⟨allowed, rfl⟩ := flagged last (by simp)
    rw [List.concat_eq_append, heedAll_concat] at member
    exact ⟨allowed, (Option.some.inj member).symm⟩

/-- The first code takes the place of a flag, and the others join it. -/
theorem heedAll_codes {held : Option AllowFailure} (plain : ∀ current ∈ held, ∃ allowed, current = flag allowed)
    {codes : List Int32} (given : codes ≠ []) :
    heedAll held (codes.map .exitCode) = some (exitCodes (.ofList codes)) := by
  induction codes using List.reverseRecOn with
  | nil => exact absurd rfl given
  | append_singleton codes code ih =>
    rw [List.map_append, List.map_singleton, heedAll_concat, OrderedSet.ofList_concat]
    by_cases first : codes = []
    · subst first
      cases held with
      | none => rfl
      | some current =>
        obtain ⟨allowed, rfl⟩ := plain current rfl
        rfl
    · rw [ih first]
      rfl

/-! ### What is exported -/

/-- What is exported after the calls said this: nothing, a flag that came last, or the different codes that
came behind the last flag. -/
inductive Heeded : List Allowance → Option Node → Prop where
  | silence : Heeded [] none
  | flag (earlier : List Allowance) (allowed : Bool) : Heeded (earlier ++ [.flag allowed]) (some (.bool allowed))
  | exitCodes {earlier : List Allowance} (flagged : FlagLast earlier) {codes : List Int32} (given : codes ≠ []) :
      Heeded (earlier ++ codes.map .exitCode)
        (some (.map [(.str "exit_codes", .list (codes.eraseDups.map toNode))]))

theorem toNode_exitCodes (codes : List Int32) : toNode (AllowFailure.exitCodes (.ofList codes)) =
    .map [(.str "exit_codes", .list (codes.eraseDups.map toNode))] := by
  rw [← OrderedSet.toList_ofList]
  rfl

theorem eq_of_heeded {said : List Allowance} {shown : Option Node} (heeded : Heeded said shown) :
    (heedAll none said).map toNode = shown := by
  cases heeded with
  | silence => rfl
  | flag earlier allowed =>
    rw [heedAll_concat]
    rfl
  | exitCodes flagged given =>
    rw [heedAll_append, heedAll_codes (plain_of_flagLast flagged) given, Option.map_some, toNode_exitCodes]

/-- Whatever is said, one of the three comes of it: one more call leads from each of them to the next. -/
theorem exists_heeded (said : List Allowance) : ∃ shown, Heeded said shown := by
  induction said using List.reverseRecOn with
  | nil => exact ⟨none, .silence⟩
  | append_singleton said next ih =>
    obtain ⟨shown, before⟩ := ih
    cases next with
    | flag allowed => exact ⟨_, .flag said allowed⟩
    | exitCode code =>
      cases before with
      | silence => exact ⟨_, @Heeded.exitCodes [] (by simp [FlagLast]) [code] (by simp)⟩
      | flag earlier allowed =>
        exact ⟨_, @Heeded.exitCodes (earlier ++ [.flag allowed]) (by simp [FlagLast]) [code] (by simp)⟩
      | @exitCodes earlier flagged codes =>
        have joined := @Heeded.exitCodes earlier flagged (codes ++ [code]) (by simp)
        rw [List.map_append, ← List.append_assoc] at joined
        exact ⟨_, joined⟩

theorem heeded_iff {said : List Allowance} {shown : Option Node} :
    Heeded said shown ↔ (heedAll none said).map toNode = shown := by
  constructor
  · exact eq_of_heeded
  · rintro rfl
    obtain ⟨shown, heeded⟩ := exists_heeded said
    rwa [eq_of_heeded heeded]

theorem heeded_none_iff {said : List Allowance} : Heeded said none ↔ said = [] := by
  constructor
  · intro heeded
    cases heeded
    rfl
  · rintro rfl
    exact .silence

theorem codes_ne_nil_of_heeded {said : List Allowance} {codes : List Node}
    (heeded : Heeded said (some (.map [(.str "exit_codes", .list codes)]))) : codes ≠ [] := by
  cases heeded with
  | exitCodes flagged given => simpa [eraseDups_eq_nil_iff] using given

end AllowFailure

namespace Job
open AllowFailure

/-- The last flag that the calls of a job set is exported, unless codes are given behind it: then those are,
each once, the flag is gone and codes before it do not come back. Without a call the key is missing, and
no list of codes is empty. -/
theorem follows_last_flag (name : String) (stage : Option String) (block : List Action) :
    let said := (performed block).filterMap Action.allowance?
    let shown := (toNode ((fresh name stage).run block).job).get? "allow_failure"
    (∀ value, Heeded said value ↔ shown = value) ∧
    (shown = none ↔ said = []) ∧
    ∀ codes, shown = some (.map [(.str "exit_codes", .list codes)]) → codes ≠ [] := by
  intro said shown
  have exported : shown = (heedAll none said).map toNode := get?_run .allowFailure
  have follows : ∀ value, Heeded said value ↔ shown = value := by
    rw [exported]
    exact fun value => heeded_iff
  refine ⟨follows, (follows none).symm.trans heeded_none_iff, fun codes listed => ?_⟩
  exact codes_ne_nil_of_heeded ((follows _).mpr listed)

/-- Codes before a flag, between two flags and behind the last, and one of them again. -/
def wavering : List Action :=
  [.allowFailureOnExitCode 1, .allowFailure, .allowFailureOnExitCode 3, .tag "docker", .forbidFailure,
    .allowFailureOnExitCode 4, .allowFailureOnExitCode 3, .allowFailureOnExitCode 4]

theorem follows_wavering :
    (toNode ((fresh "lint" none).run wavering).job).get? "allow_failure" =
      some (.map [(.str "exit_codes", .list [.int 4, .int 3])]) ∧
    (toNode ((fresh "lint" none).run [.allowFailureOnExitCode 1, .allowFailure]).job).get? "allow_failure" =
      some (.bool true) ∧
    (toNode ((fresh "lint" none).run [.tag "docker"]).job).get? "allow_failure" = none := by
  obtain ⟨codes, -⟩ := follows_last_flag "lint" none wavering
  obtain ⟨flagged, -⟩ := follows_last_flag "lint" none [.allowFailureOnExitCode 1, .allowFailure]
  obtain ⟨-, silent, -⟩ := follows_last_flag "lint" none [.tag "docker"]
  have since : FlagLast [.exitCode 1, .flag true, .exitCode 3, .flag false] := by simp [FlagLast]
  refine ⟨(codes _).mp (@Heeded.exitCodes _ since [4, 3, 4] (by simp)),
    (flagged _).mp (.flag [.exitCode 1] true), silent.mpr rfl⟩

end Job
end CiPipeline
