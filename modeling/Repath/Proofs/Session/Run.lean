/-
The cooldown over whole runs. In a run, documents are saved in any order at times that never go
back, the configuration is refreshed and documents are replaced. The cooldown is a table that
sweeps thin out, and still it answers as if all saves of the past were at hand (`Remembers`): from
now on, a path cools exactly if a save of it was applied less than the window ago.
-/
import Repath.Session
import Repath.Proofs.Cooldown
import Repath.Proofs.Session.Save
import Mathlib.Logic.Function.Basic

namespace Repath

namespace Session

variable {σ : Type} (session : Session) (kind : LiveDocument σ) (document : σ) (now : Nat)

/-! ## The cooldown of a save -/

/-- A save is stopped as cooling exactly if the session is on and the path cools. -/
theorem save_coolingDown_iff :
    (session.save kind document now).answer = .ok .coolingDown ↔
      session.config.enabled = true ∧
        session.cooldown.isCooling (kind.path document) now = true := by
  cases session.save_route kind document now with
  | stopped outcome h =>
    rw [save_of_stops h]
    cases h with
    | disabled h => simp [h]
    | cooling hen h => simp [hen, h]
    | exempt rule hen hwarm h => simp [hwarm]
  | unchanged h hch => simp [save_of_unchanged h hch, h.warm]
  | failed error h hch hres => simp [save_of_failed h hch hres, h.warm]
  | applied h hch hres => simp [save_of_applied h hch hres, h.warm]

/-- What becomes of the cooldown: a save that went through found the path not cooling and recorded
it after a sweep, any other save did no more than a sweep. -/
theorem save_cooldown :
    (∃ pass, (session.save kind document now).answer = .ok (.applied pass)) ∧
        session.Admits (kind.path document) now ∧
        (session.save kind document now).session.cooldown =
          (session.cooldown.sweep now).record (kind.path document) now ∨
      (∀ pass, (session.save kind document now).answer ≠ .ok (.applied pass)) ∧
        ((session.save kind document now).session.cooldown = session.cooldown ∨
          (session.save kind document now).session.cooldown = session.cooldown.sweep now) := by
  cases session.save_route kind document now with
  | stopped outcome h =>
    rw [save_of_stops h]
    refine .inr ⟨?_, .inl rfl⟩
    rintro pass ⟨⟩
    cases h
  | unchanged h hch => rw [save_of_unchanged h hch]; exact .inr ⟨nofun, .inr rfl⟩
  | failed error h hch hres => rw [save_of_failed h hch hres]; exact .inr ⟨nofun, .inr rfl⟩
  | applied h hch hres => rw [save_of_applied h hch hres]; exact .inl ⟨⟨_, rfl⟩, h, rfl⟩

end Session

/-! ## Runs -/

/-- A document in someone's hands. -/
structure Held where
  {State : Type}
  kind : LiveDocument State
  state : State

/-- A save of the past: the configuration of that moment, the path, the time, and the answer. -/
structure PastSave where
  config : Config
  path : Text
  now : Nat
  answer : Except CommitError Outcome

/-- The save went through. -/
def PastSave.Applied (save : PastSave) : Prop :=
  ∃ pass, save.answer = .ok (.applied pass)

/-- A session and the documents that it may be asked to handle. -/
structure World (ι : Type) where
  session : Session
  held : ι → Held

namespace World

variable {ι : Type}

/-- What a save of one of the documents comes to. -/
def saved (world : World ι) (i : ι) (now : Nat) : Saved (world.held i).State :=
  world.session.save (world.held i).kind (world.held i).state now

/-- How a save of one of the documents is remembered. -/
def past (world : World ι) (i : ι) (now : Nat) : PastSave where
  config := world.session.config
  path := (world.held i).kind.path (world.held i).state
  now := now
  answer := (world.saved i now).answer

/-- Whether a path cools. -/
def isCooling (world : World ι) (path : Text) (now : Nat) : Bool :=
  world.session.cooldown.isCooling path now

/-- An applied save found its path not cooling. -/
theorem isCooling_of_applied {world : World ι} {i : ι} {now : Nat}
    (h : (world.past i now).Applied) : world.isCooling (world.past i now).path now = false := by
  rcases world.session.save_cooldown (world.held i).kind (world.held i).state now with
    ⟨-, hadmits, -⟩ | ⟨hnot, -⟩
  · exact hadmits.warm
  · obtain ⟨pass, hpass⟩ := h
    exact absurd hpass (hnot pass)

/-- The world under a new configuration. -/
def refresh (world : World ι) (config : Config) : World ι :=
  { world with session := world.session.refresh config }

variable [DecidableEq ι]

/-- The world after a save of one of the documents. -/
def save (world : World ι) (i : ι) (now : Nat) : World ι where
  session := (world.saved i now).session
  held := Function.update world.held i ⟨(world.held i).kind, (world.saved i now).document⟩

/-- The world with another document in place of one. -/
def replace (world : World ι) (i : ι) (held : Held) : World ι :=
  { world with held := Function.update world.held i held }

/-- The worlds that runs reach from the first, each with the saves on the way, in order. -/
inductive Run (first : World ι) : World ι → List PastSave → Prop
  | start : Run first first []
  | save {world : World ι} {saves : List PastSave} (i : ι) (now : Nat) :
      Run first world saves → (∀ s ∈ saves, s.now ≤ now) →
      Run first (world.save i now) (saves ++ [world.past i now])
  | refresh {world : World ι} {saves : List PastSave} (config : Config) :
      Run first world saves → Run first (world.refresh config) saves
  | replace {world : World ι} {saves : List PastSave} (i : ι) (held : Held) :
      Run first world saves → Run first (world.replace i held) saves

variable {first world : World ι} {saves : List PastSave}

/-- Every save of a run was made in a world that the run reached before. -/
theorem Run.reached (h : Run first world saves) :
    ∀ before s after, saves = before ++ s :: after →
      ∃ (there : World ι) (i : ι) (now : Nat), Run first there before ∧ (∀ b ∈ before, b.now ≤ now) ∧
        s = there.past i now := by
  induction h with
  | start => intro before s after hsplit; simp at hsplit
  | @save world saves i now hrun hnow ih =>
    intro before s after hsplit
    rcases List.eq_nil_or_concat' after with rfl | ⟨rest, last, rfl⟩
    · obtain ⟨rfl, hs⟩ := List.append_inj' hsplit rfl
      obtain rfl := (List.cons.inj hs).1
      exact ⟨world, i, now, hrun, hnow, rfl⟩
    · rw [← List.cons_append, ← List.append_assoc] at hsplit
      exact ih before s rest (List.append_inj' hsplit rfl).1
  | refresh config _ ih => exact ih
  | replace i held _ ih => exact ih

/-! ## What the cooldown remembers -/

/-- The cooldown answers, from the last save on, as the saves of the past say. -/
structure Remembers (first world : World ι) (saves : List PastSave) : Prop where
  window : world.session.cooldown.window = first.session.cooldown.window
  expiry : world.session.cooldown.expiry = first.session.cooldown.expiry
  distinct : world.session.cooldown.Distinct
  cools : ∀ path now, (∀ s ∈ saves, s.now ≤ now) →
    (world.isCooling path now = true ↔ ∃ s ∈ saves, s.Applied ∧
      PathName.key s.path = PathName.key path ∧ now - s.now < first.session.cooldown.window)

/-- A save keeps the window and the expiry, and no path has two entries after it. -/
theorem cooldown_save (hdistinct : world.session.cooldown.Distinct) (i : ι) (now : Nat) :
    (world.save i now).session.cooldown.window = world.session.cooldown.window ∧
      (world.save i now).session.cooldown.expiry = world.session.cooldown.expiry ∧
      (world.save i now).session.cooldown.Distinct := by
  show (world.saved i now).session.cooldown.window = _ ∧
    (world.saved i now).session.cooldown.expiry = _ ∧ (world.saved i now).session.cooldown.Distinct
  rcases world.session.save_cooldown (world.held i).kind (world.held i).state now with
    ⟨-, -, h⟩ | ⟨-, h | h⟩
  · rw [show (world.saved i now).session.cooldown = _ from h]
    exact ⟨rfl, rfl, (hdistinct.sweep now).record _ now⟩
  · rw [show (world.saved i now).session.cooldown = _ from h]
    exact ⟨rfl, rfl, hdistinct⟩
  · rw [show (world.saved i now).session.cooldown = _ from h]
    exact ⟨rfl, rfl, hdistinct.sweep now⟩

/-- From its time on, a save that is not applied changes nothing about what cools. -/
theorem isCooling_save_of_not_applied (hdistinct : world.session.cooldown.Distinct)
    (hexpiry : world.session.cooldown.window ≤ world.session.cooldown.expiry) (i : ι) {now : Nat}
    (happlied : ¬ (world.past i now).Applied) (path : Text) {later : Nat} (hlater : now ≤ later) :
    (world.save i now).isCooling path later = world.isCooling path later := by
  rcases world.session.save_cooldown (world.held i).kind (world.held i).state now with
    ⟨happ, -⟩ | ⟨-, hsame | hswept⟩
  · exact absurd happ happlied
  · exact congrArg (·.isCooling path later) hsame
  · refine (congrArg (·.isCooling path later) hswept).trans ?_
    exact Cooldown.isCooling_sweep hdistinct hexpiry path hlater

/-- A save that is applied makes its path cool from its time on and no other. -/
theorem isCooling_save_of_applied (hdistinct : world.session.cooldown.Distinct)
    (hexpiry : world.session.cooldown.window ≤ world.session.cooldown.expiry) (i : ι) {now : Nat}
    (happlied : (world.past i now).Applied) (path : Text) {later : Nat} (hlater : now ≤ later) :
    (world.save i now).isCooling path later = true ↔
      if PathName.key (world.past i now).path = PathName.key path then
        later - now < world.session.cooldown.window
      else world.isCooling path later = true := by
  rcases world.session.save_cooldown (world.held i).kind (world.held i).state now with
    ⟨-, -, hcooldown⟩ | ⟨hnot, -⟩
  · have hrecorded : (world.save i now).session.cooldown =
        (world.session.cooldown.sweep now).record (world.past i now).path now := hcooldown
    rw [isCooling, hrecorded]
    split
    · rename_i hkey
      exact Cooldown.isCooling_record_of_key_eq (hdistinct.sweep now) hkey.symm now later
    · rename_i hkey
      rw [Cooldown.isCooling_record_of_key_ne (hdistinct.sweep now) (fun h => hkey h.symm),
        Cooldown.isCooling_sweep hdistinct hexpiry path hlater, isCooling]
  · obtain ⟨pass, hpass⟩ := happlied
    exact absurd hpass (hnot pass)

/-- Every run keeps the invariant, if nothing is tracked at first and the window is within the
expiry. -/
theorem Run.remembers (hempty : first.session.cooldown.entries = [])
    (hexpiry : first.session.cooldown.window ≤ first.session.cooldown.expiry)
    (hrun : Run first world saves) : Remembers first world saves := by
  induction hrun with
  | start =>
    have hdistinct : first.session.cooldown.Distinct := by
      rw [Cooldown.Distinct, hempty]
      exact List.nodup_nil
    refine ⟨rfl, rfl, hdistinct, fun path now _ => ?_⟩
    rw [isCooling, Cooldown.isCooling_iff hdistinct, hempty]
    simp
  | @save world saves i now _ hnow ih =>
    have hwithin : world.session.cooldown.window ≤ world.session.cooldown.expiry := by
      rw [ih.window, ih.expiry]
      exact hexpiry
    obtain ⟨hwindow, hexp, hdistinct⟩ := cooldown_save ih.distinct i now
    refine ⟨hwindow.trans ih.window, hexp.trans ih.expiry, hdistinct, fun path later hlater => ?_⟩
    have hbefore : ∀ s ∈ saves, s.now ≤ later :=
      fun s hs => hlater s (List.mem_append_left _ hs)
    have hle : now ≤ later := hlater _ (List.mem_append_right _ (List.mem_singleton_self _))
    simp only [List.mem_append, List.mem_singleton, or_and_right, exists_or, exists_eq_left]
    rw [← ih.cools path later hbefore]
    by_cases happlied : (world.past i now).Applied
    · rw [isCooling_save_of_applied ih.distinct hwithin i happlied path hle, ih.window]
      split
      · rename_i hkey
        refine ⟨fun hage => .inr ⟨happlied, hkey, hage⟩, ?_⟩
        rintro (hcools | ⟨-, -, hage⟩)
        · -- what an older save keeps cool, this one does all the more
          obtain ⟨s, hs, -, -, hage⟩ := (ih.cools path later hbefore).1 hcools
          have hold := hnow s hs
          omega
        · exact hage
      · rename_i hkey
        exact ⟨.inl, fun h => h.resolve_right fun hnew => hkey hnew.2.1⟩
    · rw [isCooling_save_of_not_applied ih.distinct hwithin i happlied path hle]
      exact ⟨.inl, fun h => h.resolve_right fun hnew => happlied hnew.1⟩
  | refresh config _ ih => exact ⟨ih.window, ih.expiry, ih.distinct, ih.cools⟩
  | replace i held _ ih => exact ⟨ih.window, ih.expiry, ih.distinct, ih.cools⟩

/-- The answer to a save of a run, from the saves before it. -/
theorem Run.past_coolingDown_iff (hempty : first.session.cooldown.entries = [])
    (hexpiry : first.session.cooldown.window ≤ first.session.cooldown.expiry)
    (hrun : Run first world saves) (i : ι) {now : Nat} (hnow : ∀ s ∈ saves, s.now ≤ now) :
    (world.past i now).answer = .ok .coolingDown ↔
      (world.past i now).config.enabled = true ∧ ∃ a ∈ saves, a.Applied ∧
        PathName.key a.path = PathName.key (world.past i now).path ∧
        now - a.now < first.session.cooldown.window := by
  rw [← (hrun.remembers hempty hexpiry).cools _ _ hnow]
  exact world.session.save_coolingDown_iff (world.held i).kind (world.held i).state now

/-- Applied saves of one path are at least the window apart. -/
theorem Run.applied_apart (hempty : first.session.cooldown.entries = [])
    (hexpiry : first.session.cooldown.window ≤ first.session.cooldown.expiry)
    (hrun : Run first world saves) :
    saves.Pairwise fun a b => a.Applied → b.Applied →
      PathName.key a.path = PathName.key b.path →
      a.now + first.session.cooldown.window ≤ b.now := by
  induction hrun with
  | start => exact .nil
  | @save world saves i now hrun hnow ih =>
    refine List.pairwise_append.2 ⟨ih, List.pairwise_singleton _ _, fun a ha b hb => ?_⟩
    obtain rfl := List.mem_singleton.1 hb
    intro happ hagain hkey
    have hage : ¬ now - a.now < first.session.cooldown.window := fun hage =>
      have hcools := ((hrun.remembers hempty hexpiry).cools _ _ hnow).2 ⟨a, ha, happ, hkey, hage⟩
      Bool.false_ne_true ((isCooling_of_applied hagain).symm.trans hcools)
    have hle := hnow a ha
    show a.now + _ ≤ now
    omega
  | refresh config _ ih => exact ih
  | replace i held _ ih => exact ih

/-- A session that starts with nothing tracked, its window within the expiry, over any run. A save
is stopped as cooling exactly if the session is on at that moment and an earlier save of the same
path was applied less than the window ago; so two applied saves of one path are at least the window
apart. After the run, a save that is not applied starts nothing that cools, no save makes a path
stop cooling, and a refresh does neither. -/
theorem Run.coolingDown_iff (hempty : first.session.cooldown.entries = [])
    (hexpiry : first.session.cooldown.window ≤ first.session.cooldown.expiry)
    (hrun : Run first world saves) :
    let window := first.session.cooldown.window
    (∀ before s after, saves = before ++ s :: after →
      (s.answer = .ok .coolingDown ↔ s.config.enabled = true ∧ ∃ a ∈ before, a.Applied ∧
        PathName.key a.path = PathName.key s.path ∧ s.now - a.now < window)) ∧
    (saves.Pairwise fun a b => a.Applied → b.Applied →
      PathName.key a.path = PathName.key b.path → a.now + window ≤ b.now) ∧
    (∀ i now, ¬ (world.past i now).Applied → ∀ path later, now ≤ later →
      (world.save i now).isCooling path later = world.isCooling path later) ∧
    (∀ i now, (∀ s ∈ saves, s.now ≤ now) → ∀ path later, now ≤ later →
      world.isCooling path later = true → (world.save i now).isCooling path later = true) ∧
    (∀ config path now, (world.refresh config).isCooling path now = world.isCooling path now) := by
  intro window
  have hinv := hrun.remembers hempty hexpiry
  have hwithin : world.session.cooldown.window ≤ world.session.cooldown.expiry := by
    rw [hinv.window, hinv.expiry]
    exact hexpiry
  refine ⟨fun before s after hsplit => ?_, hrun.applied_apart hempty hexpiry,
    fun i now happlied path later hlater => ?_, fun i now hnow path later hlater hcools => ?_,
    fun config path now => rfl⟩
  · obtain ⟨there, i, now, hthere, hnow, rfl⟩ := hrun.reached before s after hsplit
    exact hthere.past_coolingDown_iff hempty hexpiry i hnow
  · exact isCooling_save_of_not_applied hinv.distinct hwithin i happlied path hlater
  · by_cases happlied : (world.past i now).Applied
    · rw [isCooling_save_of_applied hinv.distinct hwithin i happlied path hlater]
      split
      · -- the saves that keep the path cool are no later than this one
        have hall : ∀ s ∈ saves, s.now ≤ later := fun s hs => (hnow s hs).trans hlater
        obtain ⟨s, hs, -, -, hage⟩ := (hinv.cools path later hall).1 hcools
        have hold := hnow s hs
        rw [hinv.window]
        omega
      · exact hcools
    · rw [isCooling_save_of_not_applied hinv.distinct hwithin i happlied path hlater]
      exact hcools

/-- A document that is put back under another spelling of its path cools, under a new configuration
as well. -/
theorem coolingDown_iff_resaved :
    let config : Config := { rules := [⟨['r'], ['o', 'l', 'd'], ['n', 'e', 'w'], [], true⟩] }
    let document : ScriptedDocument := { path := ['p'], text := "\"old\"".toList }
    let again : ScriptedDocument := { path := ['p', '/'], text := "\"old\"".toList }
    let first : World Unit := ⟨Session.start config, fun _ => ⟨ScriptedDocument.kind, document⟩⟩
    let world := ((first.save () 1).replace () ⟨ScriptedDocument.kind, again⟩).refresh {}
    first.session.cooldown.entries = [] ∧
      first.session.cooldown.window ≤ first.session.cooldown.expiry ∧
      Run first (world.save () 5000) [first.past () 1, world.past () 5000] ∧
      (world.past () 5000).answer = .ok .coolingDown := by
  intro config document again first world
  have hsaved : Run first (first.save () 1) [first.past () 1] := .save () 1 .start (by simp)
  have hrun : Run first (world.save () 5000) [first.past () 1, world.past () 5000] := by
    refine .save () 5000 (.refresh {} (.replace () _ hsaved)) fun s hs => ?_
    obtain rfl := List.mem_singleton.1 hs
    show 1 ≤ 5000
    decide
  have happlied : (first.past () 1).Applied := ⟨_, rfl⟩
  have hstopped := (hrun.coolingDown_iff rfl (by decide)).1 [first.past () 1] (world.past () 5000) [] rfl
  exact ⟨rfl, by decide, hrun, hstopped.2 ⟨rfl, _, List.mem_singleton_self _, happlied, rfl, by decide⟩⟩

end World

end Repath
