/-
What a save leaves behind. A save ends in one of four ways (`save_route`): it is stopped before the
scan, since the session is off or the path cools or is exempt, or nothing changed, or the commit
failed, or it went through. From these follow what a save keeps whatever the holder does
(`save_keeps`), and that a save of a plain document makes of its text exactly what the rules say
(`save_rewrites`).
-/
import Repath.Session
import Repath.Proofs.Pass.Rewrite

namespace Repath

namespace Session

variable {σ : Type}

/-! ## The ways of a save -/

/-- A save of the path gets through to the scan. -/
structure Admits (session : Session) (path : Text) (now : Nat) : Prop where
  enabled : session.config.enabled = true
  warm : session.cooldown.isCooling path now = false
  notExempt : session.exemptions.matchingRule? path = none

/-- The session without the paths that are past their expiry. -/
def swept (session : Session) (now : Nat) : Session :=
  { session with cooldown := session.cooldown.sweep now }

instance (session : Session) (path : Text) (now : Nat) : Decidable (session.Admits path now) :=
  decidable_of_iff (session.config.enabled = true ∧ session.cooldown.isCooling path now = false ∧
      session.exemptions.matchingRule? path = none)
    ⟨fun ⟨hen, hwarm, hex⟩ => ⟨hen, hwarm, hex⟩, fun h => ⟨h.enabled, h.warm, h.notExempt⟩⟩

/-- A save of the path is stopped before the scan, with the given outcome. -/
inductive Stops (session : Session) (path : Text) (now : Nat) : Outcome → Prop
  | disabled (h : session.config.enabled = false) : Stops session path now .disabled
  | cooling (hen : session.config.enabled = true)
      (h : session.cooldown.isCooling path now = true) : Stops session path now .coolingDown
  | exempt (rule : Text) (hen : session.config.enabled = true)
      (hwarm : session.cooldown.isCooling path now = false)
      (h : session.exemptions.matchingRule? path = some rule) : Stops session path now (.exempt rule)

theorem Stops.not_admits {session : Session} {path : Text} {now : Nat} {outcome : Outcome}
    (h : session.Stops path now outcome) : ¬ session.Admits path now := by
  intro hadmits
  cases h with
  | disabled h => exact Bool.false_ne_true (h.symm.trans hadmits.enabled)
  | cooling hen h => exact Bool.false_ne_true (hadmits.warm.symm.trans h)
  | exempt rule hen hwarm h => exact Option.some_ne_none rule (h.symm.trans hadmits.notExempt)

/-- What decides a save: it is stopped, or the scan finds nothing to change, or the commit fails or
goes through. -/
inductive Route (session : Session) (kind : LiveDocument σ) (document : σ) (now : Nat) : Prop
  | stopped (outcome : Outcome) (h : session.Stops (kind.path document) now outcome)
  | unchanged (h : session.Admits (kind.path document) now)
      (hch : (session.config.pass (kind.text document)).hasChanges = false)
  | failed (error : CommitError) (h : session.Admits (kind.path document) now)
      (hch : (session.config.pass (kind.text document)).hasChanges = true)
      (hres : ((session.config.pass (kind.text document)).commit kind document).result = .error error)
  | applied (h : session.Admits (kind.path document) now)
      (hch : (session.config.pass (kind.text document)).hasChanges = true)
      (hres : ((session.config.pass (kind.text document)).commit kind document).result = .ok ())

theorem save_route (session : Session) (kind : LiveDocument σ) (document : σ) (now : Nat) :
    Route session kind document now := by
  cases hen : session.config.enabled with
  | false => exact .stopped _ (.disabled hen)
  | true =>
  cases hcool : session.cooldown.isCooling (kind.path document) now with
  | true => exact .stopped _ (.cooling hen hcool)
  | false =>
  cases hex : session.exemptions.matchingRule? (kind.path document) with
  | some rule => exact .stopped _ (.exempt rule hen hcool hex)
  | none =>
  cases hch : (session.config.pass (kind.text document)).hasChanges with
  | false => exact .unchanged ⟨hen, hcool, hex⟩ hch
  | true =>
  cases hres : ((session.config.pass (kind.text document)).commit kind document).result with
  | error error => exact .failed error ⟨hen, hcool, hex⟩ hch hres
  | ok _ => exact .applied ⟨hen, hcool, hex⟩ hch hres

section Equations

variable {session : Session} {kind : LiveDocument σ} {document : σ} {now : Nat}

/-- A save that is stopped leaves everything as it was. -/
theorem save_of_stops {outcome : Outcome} (h : session.Stops (kind.path document) now outcome) :
    session.save kind document now = { session, document, answer := .ok outcome } := by
  unfold save
  cases h with
  | disabled h => simp only [h]; rfl
  | cooling hen h => simp only [hen, h]; rfl
  | exempt rule hen hwarm h => simp only [hen, hwarm, h]; rfl

theorem save_of_admits (h : session.Admits (kind.path document) now) :
    session.save kind document now = session.process kind document now := by
  unfold save
  simp only [h.enabled, h.warm, h.notExempt]
  rfl

theorem save_of_unchanged (h : session.Admits (kind.path document) now)
    (hch : (session.config.pass (kind.text document)).hasChanges = false) :
    session.save kind document now =
      { session := session.swept now, document
        answer := .ok (.unchanged (session.config.pass (kind.text document)))
        notices := failureNotices session.config (kind.path document)
          (session.config.pass (kind.text document))
        swept := session.cooldown.sweptCount now
        trail := session.config.trail (kind.text document) } := by
  rw [Config.pass] at hch
  rw [save_of_admits h, process]
  simp only [hch]
  rfl

theorem save_of_failed (h : session.Admits (kind.path document) now)
    (hch : (session.config.pass (kind.text document)).hasChanges = true) {error : CommitError}
    (hres : ((session.config.pass (kind.text document)).commit kind document).result = .error error) :
    session.save kind document now =
      { session := session.swept now
        document := ((session.config.pass (kind.text document)).commit kind document).document
        answer := .error error
        notices := failureNotices session.config (kind.path document)
          (session.config.pass (kind.text document))
        swept := session.cooldown.sweptCount now
        trail := session.config.trail (kind.text document)
        remarks := ((session.config.pass (kind.text document)).commit kind document).remarks } := by
  rw [Config.pass] at hch hres
  rw [save_of_admits h, process]
  simp only [hch, hres]
  rfl

theorem save_of_applied (h : session.Admits (kind.path document) now)
    (hch : (session.config.pass (kind.text document)).hasChanges = true)
    (hres : ((session.config.pass (kind.text document)).commit kind document).result = .ok ()) :
    session.save kind document now =
      { session := { session with
          cooldown := (session.cooldown.sweep now).record (kind.path document) now }
        document := ((session.config.pass (kind.text document)).commit kind document).document
        answer := .ok (.applied (session.config.pass (kind.text document)))
        notices := failureNotices session.config (kind.path document)
            (session.config.pass (kind.text document)) ++
          appliedNotices session.config (kind.path document)
            (session.config.pass (kind.text document))
        swept := session.cooldown.sweptCount now
        trail := session.config.trail (kind.text document)
        remarks := ((session.config.pass (kind.text document)).commit kind document).remarks } := by
  rw [Config.pass] at hch hres
  rw [save_of_admits h, process]
  simp only [hch, hres]
  rfl

end Equations

theorem save_config_exemptions (session : Session) (kind : LiveDocument σ) (document : σ) (now : Nat) :
    (session.save kind document now).session.config = session.config ∧
      (session.save kind document now).session.exemptions = session.exemptions := by
  cases session.save_route kind document now with
  | stopped outcome h => rw [save_of_stops h]; exact ⟨rfl, rfl⟩
  | unchanged h hch => rw [save_of_unchanged h hch]; exact ⟨rfl, rfl⟩
  | failed error h hch hres => rw [save_of_failed h hch hres]; exact ⟨rfl, rfl⟩
  | applied h hch hres => rw [save_of_applied h hch hres]; exact ⟨rfl, rfl⟩

/-! ## What is handed in -/

/-- Everything that a save hands in to the holder of the document, in order. -/
def handed (session : Session) (kind : LiveDocument σ) (document : σ) (now : Nat) :
    List (List LineEdit) :=
  (session.save kind.recorded (document, []) now).document.2

/-- Recording changes nothing about a save; it adds what the commit hands in, if there is one. -/
theorem save_recorded (session : Session) (kind : LiveDocument σ) (document : σ) (now : Nat) :
    session.save kind.recorded (document, []) now =
      { session := (session.save kind document now).session
        document := ((session.save kind document now).document,
          if session.Admits (kind.path document) now ∧
            (session.config.pass (kind.text document)).hasChanges then
            (session.config.pass (kind.text document)).handed kind document else [])
        answer := (session.save kind document now).answer
        notices := (session.save kind document now).notices
        swept := (session.save kind document now).swept
        trail := (session.save kind document now).trail
        remarks := (session.save kind document now).remarks } := by
  have hcommit := Pass.commit_recorded (session.config.pass (kind.text document)) kind document
  cases session.save_route kind document now with
  | stopped outcome h =>
    have h' : session.Stops (kind.recorded.path (document, [])) now outcome := h
    rw [save_of_stops h, save_of_stops h', if_neg fun hc => h.not_admits hc.1]
  | unchanged h hch =>
    have h' : session.Admits (kind.recorded.path (document, [])) now := h
    rw [save_of_unchanged h hch, save_of_unchanged h' hch,
      if_neg fun hc => Bool.false_ne_true (hch.symm.trans hc.2)]
    rfl
  | failed error h hch hres =>
    have h' : session.Admits (kind.recorded.path (document, [])) now := h
    have hres' : ((session.config.pass (kind.text document)).commit kind.recorded
        (document, [])).result = .error error := by rw [hcommit, hres]
    rw [save_of_failed h hch hres, save_of_failed h' hch hres', if_pos ⟨h, hch⟩]
    rw [show kind.recorded.text (document, []) = kind.text document from rfl, hcommit]
    rfl
  | applied h hch hres =>
    have h' : session.Admits (kind.recorded.path (document, [])) now := h
    have hres' : ((session.config.pass (kind.text document)).commit kind.recorded
        (document, [])).result = .ok () := by rw [hcommit, hres]
    rw [save_of_applied h hch hres, save_of_applied h' hch hres', if_pos ⟨h, hch⟩]
    rw [show kind.recorded.text (document, []) = kind.text document from rfl, hcommit]
    rfl

theorem handed_of_admits {session : Session} {kind : LiveDocument σ} {document : σ} {now : Nat}
    (h : session.Admits (kind.path document) now)
    (hch : (session.config.pass (kind.text document)).hasChanges = true) :
    session.handed kind document now =
      (session.config.pass (kind.text document)).handed kind document := by
  rw [handed, save_recorded, if_pos ⟨h, hch⟩]

theorem handed_of_not_admits {session : Session} {kind : LiveDocument σ} {document : σ} {now : Nat}
    (h : ¬ session.Admits (kind.path document) now) : session.handed kind document now = [] := by
  rw [handed, save_recorded, if_neg fun hc => h hc.1]

theorem handed_of_unchanged {session : Session} {kind : LiveDocument σ} {document : σ} {now : Nat}
    (hch : (session.config.pass (kind.text document)).hasChanges = false) :
    session.handed kind document now = [] := by
  rw [handed, save_recorded, if_neg fun hc => Bool.false_ne_true (hch.symm.trans hc.2)]

/-! ## What a save keeps -/

/-- Failed rules are no announcement of an applied pass. -/
theorem applied_notMem_failureNotices (config : Config) (path : Text) (pass : Pass) (p : Text)
    (q : Pass) : Notice.applied p q ∉ failureNotices config path pass := by
  unfold failureNotices
  split <;> simp

/-- What a save keeps, whatever a careful holder does. The configuration and the exemptions stay. A
save that fails leaves the text, has swept the cooldown and done no more to it, and announces
nothing; it has handed in nothing if the document was stale, else the edits, once. A save that stops
before the scan leaves everything as it was, one that finds nothing to change hands in nothing. A
save that goes through has handed in the edits once, records the path after the sweep, and announces
the pass exactly if notices are wanted. -/
theorem save_keeps (session : Session) (kind : LiveDocument σ) (document : σ) (now : Nat)
    (hcare : kind.Careful document) :
    let path := kind.path document
    let pass := session.config.pass (kind.text document)
    let saved := session.save kind document now
    let handed := session.handed kind document now
    (saved.session.config = session.config ∧ saved.session.exemptions = session.exemptions) ∧
    (∀ error, saved.answer = .error error →
      kind.text saved.document = kind.text document ∧
      saved.session.cooldown = session.cooldown.sweep now ∧
      (∀ p q, Notice.applied p q ∉ saved.notices) ∧
      ((∃ line, error = .stale path line) ∧ handed = [] ∨
        (error = .declined path ∨ ∃ message, error = .raised path message) ∧
          handed = [pass.edits])) ∧
    (saved.answer = .ok .disabled ∨ saved.answer = .ok .coolingDown ∨
        (∃ rule, saved.answer = .ok (.exempt rule)) →
      saved.session.cooldown = session.cooldown ∧ saved.document = document ∧ handed = [] ∧
      saved.notices = []) ∧
    (∀ found, saved.answer = .ok (.unchanged found) →
      found = pass ∧ saved.document = document ∧ handed = [] ∧
      saved.session.cooldown = session.cooldown.sweep now ∧
      ∀ p q, Notice.applied p q ∉ saved.notices) ∧
    (∀ found, saved.answer = .ok (.applied found) →
      found = pass ∧ handed = [pass.edits] ∧
      saved.session.cooldown = (session.cooldown.sweep now).record path now ∧
      saved.notices = if session.config.showNotifications then
        pass.failures.map (.ruleFailed path) ++ [.applied path pass] else []) := by
  intro path pass saved handed
  cases session.save_route kind document now with
  | stopped outcome h =>
    have hsaved : saved = _ := save_of_stops h
    have hhanded : handed = [] := handed_of_not_admits h.not_admits
    rw [hsaved, hhanded]
    refine ⟨⟨rfl, rfl⟩, nofun, fun _ => ⟨rfl, rfl, rfl, rfl⟩, ?_, ?_⟩
    -- no save is stopped with one of these outcomes
    · rintro found ⟨⟩; cases h
    · rintro found ⟨⟩; cases h
  | unchanged h hch =>
    have hsaved : saved = _ := save_of_unchanged h hch
    have hhanded : handed = [] := handed_of_unchanged hch
    rw [hsaved, hhanded]
    refine ⟨⟨rfl, rfl⟩, nofun, by simp, fun found hfound => ?_, nofun⟩
    cases hfound
    exact ⟨rfl, rfl, rfl, rfl, applied_notMem_failureNotices session.config path pass⟩
  | failed error h hch hres =>
    have hsaved : saved = _ := save_of_failed h hch hres
    have hhanded : handed = pass.handed kind document := handed_of_admits h hch
    rw [hsaved, hhanded]
    refine ⟨⟨rfl, rfl⟩, fun e he => ?_, by simp, nofun, nofun⟩
    cases he
    obtain ⟨htext, herror⟩ := Pass.commit_error hcare hres
    exact ⟨htext, rfl, applied_notMem_failureNotices session.config path pass, herror⟩
  | applied h hch hres =>
    have hsaved : saved = _ := save_of_applied h hch hres
    have hhanded : handed = [pass.edits] :=
      (handed_of_admits h hch).trans (Pass.handed_of_ok hres)
    rw [hsaved, hhanded]
    refine ⟨⟨rfl, rfl⟩, nofun, by simp, nofun, fun found hfound => ?_⟩
    cases hfound
    refine ⟨rfl, rfl, rfl, ?_⟩
    show failureNotices _ _ _ ++ appliedNotices _ _ _ = _
    unfold failureNotices appliedNotices
    split <;> rfl

/-- A holder that fails is handed the edits once; the text stays and the path does not cool. -/
theorem save_keeps_failing :
    let config : Config := { rules := [⟨['r'], ['o', 'l', 'd'], ['n', 'e', 'w'], [], true⟩] }
    let session := Session.start config
    let document : ScriptedDocument :=
      { path := ['p'], text := "\"old\"".toList, conduct := .fails [['x']] }
    let saved := session.save ScriptedDocument.kind document 7
    ScriptedDocument.kind.Careful document ∧ saved.answer = .error (.raised ['p'] ['x']) ∧
      ScriptedDocument.kind.text saved.document = document.text ∧
      saved.session.cooldown = session.cooldown.sweep 7 ∧
      session.handed ScriptedDocument.kind document 7 = [(config.pass document.text).edits] := by
  intro config session document saved
  have hcare : ScriptedDocument.kind.Careful document := ScriptedDocument.careful document
  have hanswer : saved.answer = .error (.raised ['p'] ['x']) := by decide
  obtain ⟨htext, hcool, -, hhanded⟩ :=
    (save_keeps session ScriptedDocument.kind document 7 hcare).2.1 _ hanswer
  refine ⟨hcare, hanswer, htext, hcool, ?_⟩
  rcases hhanded with ⟨⟨line, hline⟩, -⟩ | ⟨-, h⟩
  · cases hline
  · exact h

/-! ## What a save makes of a text -/

/-- A save of a plain document whose path is neither cooling nor exempt, in an enabled session,
never fails. It leaves the text as the rules rewrite it, and it is applied exactly if some rule
fires on some line, else unchanged. -/
theorem save_rewrites (session : Session) (kind : LiveDocument σ) (document : σ) (now : Nat)
    (hen : session.config.enabled = true)
    (hwarm : session.cooldown.isCooling (kind.path document) now = false)
    (hexempt : session.exemptions.matchingRule? (kind.path document) = none)
    (hplain : kind.Plain document) :
    let pass := session.config.pass (kind.text document)
    let saved := session.save kind document now
    (∀ error, saved.answer ≠ .error error) ∧
    kind.text saved.document = session.config.rewrite (kind.text document) ∧
    (saved.answer = .ok (.applied pass) ↔ session.config.Fires (kind.text document)) ∧
    (saved.answer = .ok (.unchanged pass) ↔ ¬ session.config.Fires (kind.text document)) := by
  intro pass saved
  have hadmits : session.Admits (kind.path document) now := ⟨hen, hwarm, hexempt⟩
  have hfires := Pass.hasChanges_iff session.config (kind.text document)
  cases hch : pass.hasChanges with
  | false =>
    have hnot : ¬ session.config.Fires (kind.text document) :=
      fun hf => Bool.false_ne_true (hch.symm.trans (hfires.2 hf))
    have hsaved : saved = _ := save_of_unchanged hadmits hch
    rw [hsaved, Config.rewrite_of_not_fires hen hnot]
    exact ⟨nofun, rfl, ⟨nofun, fun hf => absurd hf hnot⟩, ⟨fun _ => hnot, fun _ => rfl⟩⟩
  | true =>
    have hf := hfires.1 hch
    have hreads : ∀ n, ¬ (session.config.pass (kind.text document)).Moved (kind.text document)
        (kind.text document) n := fun n hmoved => hmoved.2 rfl
    obtain ⟨hok, htext⟩ := Pass.commit_of_not_moved hplain hreads
    have hsaved : saved = _ := save_of_applied hadmits hch hok
    rw [hsaved, Config.rewrite_eq_mapIdx hen]
    exact ⟨nofun, htext, ⟨fun _ => hf, fun _ => rfl⟩, ⟨nofun, fun h => absurd hf h⟩⟩

/-- Two rules in a row, the second over what the first made, on a file that ends in a line break. -/
theorem save_rewrites_chained :
    let config : Config := { rules :=
      [⟨['r'], ['a'], ['b'], [], true⟩, ⟨['s'], ['b', 'b'], ['c'], [], true⟩] }
    let session := Session.start config
    let document : ScriptedDocument := { path := ['p'], text := "\"aba\"\naa\n".toList }
    let saved := session.save ScriptedDocument.kind document 7
    session.config.enabled = true ∧
      session.cooldown.isCooling (ScriptedDocument.kind.path document) 7 = false ∧
      session.exemptions.matchingRule? (ScriptedDocument.kind.path document) = none ∧
      ScriptedDocument.kind.Plain document ∧
      ScriptedDocument.kind.text saved.document = session.config.rewrite document.text ∧
      session.config.rewrite document.text = "\"cb\"\naa\n".toList := by
  intro config session document saved
  have hplain : ScriptedDocument.kind.Plain document := ScriptedDocument.plain rfl rfl
  have htext := (save_rewrites session ScriptedDocument.kind document 7 rfl rfl rfl hplain).2.1
  have hran : ScriptedDocument.kind.text saved.document = "\"cb\"\naa\n".toList := by decide
  exact ⟨rfl, rfl, rfl, hplain, htext, htext.symm.trans hran⟩

end Session

end Repath
