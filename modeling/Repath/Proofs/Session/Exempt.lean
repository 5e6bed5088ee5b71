/-
The exemptions of a session over any run. They are compiled once for each configuration, and still
they answer as if every pattern were tried on the path anew, rule by rule in the order of the
configuration (`matchingRule?_ofRules`): a start and a refresh compile them from the rules, and a
save touches neither (`Reached.exemptions`). So a save that gets as far as the exemptions is stopped
exactly if some rule of the moment exempts its path, and the first such rule is named.
-/
import Repath.Proofs.Session.Save

namespace Repath

/-- The rule is on, and one of its patterns matches the path. -/
def Rule.exempts (path : Text) (rule : Rule) : Bool :=
  rule.enabled && rule.exemptPaths.any (PathGlob.matchesPattern path)

theorem Rule.exempts_iff {path : Text} {rule : Rule} :
    rule.exempts path = true ↔ rule.enabled = true ∧
      ∃ pattern ∈ rule.exemptPaths, PathGlob.matchesPattern path pattern = true := by
  rw [Rule.exempts, Bool.and_eq_true, List.any_eq_true]

theorem PathGlob.matchesPattern_iff {path pattern : Text} :
    matchesPattern path pattern = true ↔
      ∃ glob, compile pattern = .ok glob ∧ glob.isMatch path = true := by
  unfold matchesPattern
  cases compile pattern <;> simp

namespace Exemptions

/-- The compiled patterns answer as the patterns do when each is tried alone. -/
theorem matchingRule?_eq_find?_patterns (rules : List Rule) (path : Text) :
    (ofRules rules).matchingRule? path =
      ((patterns rules).find? fun entry => PathGlob.matchesPattern path entry.2).map (·.1) := by
  -- a pattern that is refused is left out, and alone it matches nothing
  have hany (entry : Text × Text) : (((PathGlob.compile entry.2).toOption.map
      fun glob => (entry.1, glob)).any fun compiled => compiled.2.isMatch path) =
        PathGlob.matchesPattern path entry.2 := by
    unfold PathGlob.matchesPattern
    cases PathGlob.compile entry.2 <;> rfl
  have hcompiled : (ofRules rules).matchingRule? path = (((patterns rules).filterMap fun entry =>
      (PathGlob.compile entry.2).toOption.map fun glob => (entry.1, glob)).find?
        fun compiled => compiled.2.isMatch path).map (·.1) := rfl
  rw [hcompiled, List.find?_filterMap]
  simp only [hany]
  cases hfound : (patterns rules).find? fun entry => PathGlob.matchesPattern path entry.2 with
  | none => rfl
  | some entry =>
    have hmatch := List.find?_some hfound
    obtain ⟨glob, hcompile, -⟩ := PathGlob.matchesPattern_iff.1 hmatch
    simp [hcompile, Except.toOption]

/-- The rule that is named is the first one that exempts the path. -/
theorem matchingRule?_ofRules (rules : List Rule) (path : Text) :
    (ofRules rules).matchingRule? path = (rules.find? (Rule.exempts path)).map (·.name) := by
  rw [matchingRule?_eq_find?_patterns, patterns, List.find?_flatMap]
  induction rules with
  | nil => rfl
  | cons rule rules ih =>
    rw [List.find?_cons, List.filter_cons, Rule.exempts]
    cases hen : rule.enabled with
    | false => simpa using ih
    | true =>
      -- each pattern is tried with the name of its rule beside it
      have hpaired : ((fun entry : Text × Text => PathGlob.matchesPattern path entry.2) ∘
          fun pattern => (rule.name, pattern)) = PathGlob.matchesPattern path := rfl
      rw [if_pos rfl, List.findSome?_cons, List.find?_map, hpaired, Bool.true_and]
      cases hany : rule.exemptPaths.any (PathGlob.matchesPattern path) with
      | true =>
        obtain ⟨pattern, hpattern, hmatch⟩ := List.any_eq_true.1 hany
        obtain ⟨first, hfirst⟩ := Option.isSome_iff_exists.1
          (List.find?_isSome.2 ⟨pattern, hpattern, hmatch⟩)
        rw [hfirst]
        rfl
      | false =>
        rw [List.find?_eq_none.2 (List.any_eq_false.1 hany)]
        exact ih

end Exemptions

namespace Session

/-! ## Runs -/

/-- The sessions that are reached by a start and any refreshes and saves, of any documents and at
any times. -/
inductive Reached : Session → Prop
  | start (config : Config) (cooldown : Cooldown) : Reached (.start config cooldown)
  | refresh {session : Session} (config : Config) : Reached session → Reached (session.refresh config)
  | save {session : Session} {σ : Type} (kind : LiveDocument σ) (document : σ) (now : Nat) :
      Reached session → Reached (session.save kind document now).session

variable {σ : Type} {session : Session} {kind : LiveDocument σ} {document : σ} {now : Nat}

/-- The compiled exemptions are those of the current rules. -/
theorem Reached.exemptions (h : Reached session) :
    session.exemptions = Exemptions.ofRules session.config.rules := by
  induction h with
  | start config cooldown => rfl
  | refresh config _ _ => rfl
  | @save session σ kind document now _ ih =>
    obtain ⟨hconfig, hexemptions⟩ := save_config_exemptions session kind document now
    rw [hexemptions, hconfig, ih]

theorem Reached.matchingRule? (h : Reached session) (path : Text) :
    session.exemptions.matchingRule? path =
      (session.config.rules.find? (Rule.exempts path)).map (·.name) := by
  rw [h.exemptions, Exemptions.matchingRule?_ofRules]

/-! ## Saves of exempt paths -/

/-- A save is stopped as exempt exactly if it gets to the exemptions and they name that rule. -/
theorem save_exempt_iff {rule : Text} :
    (session.save kind document now).answer = .ok (.exempt rule) ↔
      session.Stops (kind.path document) now (.exempt rule) := by
  constructor
  · intro hanswer
    cases session.save_route kind document now with
    | stopped outcome h =>
      rw [save_of_stops h] at hanswer
      cases hanswer
      exact h
    | unchanged h hch => rw [save_of_unchanged h hch] at hanswer; cases hanswer
    | failed error h hch hres => rw [save_of_failed h hch hres] at hanswer; cases hanswer
    | applied h hch hres => rw [save_of_applied h hch hres] at hanswer; cases hanswer
  · intro h
    rw [save_of_stops h]

/-- In every session that is reached, a path is exempt exactly if a pattern of an enabled rule of the
current configuration matches it, tried alone; a pattern that does not compile matches nothing. A
save, if the session is on and its path not cooling, is stopped as exempt exactly if the path is. It
names the first rule that exempts the path, leaves the session and the document as they are, and
neither hands in nor shows anything. -/
theorem Reached.exempt_iff (h : Reached session) :
    (∀ path, session.exemptions.isExempt path = true ↔
      ∃ rule ∈ session.config.rules, rule.enabled = true ∧
        ∃ pattern ∈ rule.exemptPaths, PathGlob.matchesPattern path pattern = true) ∧
    (∀ path pattern, (∀ glob, PathGlob.compile pattern ≠ .ok glob) →
      PathGlob.matchesPattern path pattern = false) ∧
    ∀ {σ : Type} (kind : LiveDocument σ) (document : σ) (now : Nat),
      let path := kind.path document
      let saved := session.save kind document now
      session.config.enabled = true → session.cooldown.isCooling path now = false →
      ((∃ name, saved.answer = .ok (.exempt name)) ↔ session.exemptions.isExempt path = true) ∧
      ∀ name, saved.answer = .ok (.exempt name) →
        (∃ before rule after, session.config.rules = before ++ rule :: after ∧
          rule.exempts path = true ∧ (∀ other ∈ before, other.exempts path = false) ∧
          rule.name = name) ∧
        saved.session = session ∧ saved.document = document ∧
        session.handed kind document now = [] ∧ saved.notices = [] := by
  refine ⟨fun path => ?_, fun path pattern hrefused => ?_, ?_⟩
  · rw [Exemptions.isExempt, h.matchingRule?, Option.isSome_map, List.find?_isSome]
    simp only [Rule.exempts_iff]
  · rw [← Bool.not_eq_true, PathGlob.matchesPattern_iff]
    rintro ⟨glob, hcompile, -⟩
    exact hrefused glob hcompile
  · intro σ kind document now path saved hen hwarm
    refine ⟨?_, fun name hanswer => ?_⟩
    · rw [Exemptions.isExempt, Option.isSome_iff_exists]
      refine exists_congr fun name => save_exempt_iff.trans ⟨?_, .exempt name hen hwarm⟩
      rintro (_ | _ | ⟨_, _, _, hname⟩)
      exact hname
    · have hstops := save_exempt_iff.1 hanswer
      have hsaved : saved = _ := save_of_stops hstops
      have hhanded := handed_of_not_admits hstops.not_admits
      rw [hsaved]
      refine ⟨?_, rfl, rfl, hhanded, rfl⟩
      cases hstops with
      | exempt _ _ _ hname =>
        rw [h.matchingRule?, Option.map_eq_some_iff] at hname
        obtain ⟨rule, hfind, hname⟩ := hname
        obtain ⟨hexempts, before, after, hsplit, hbefore⟩ := List.find?_eq_some_iff_append.1 hfind
        exact ⟨before, rule, after, hsplit, hexempts, by simpa using hbefore, hname⟩

/-- After a refresh, a path that the first rule would exempt if it were on, the second if its first
pattern compiled, and that the third one exempts by its second pattern. -/
theorem Reached.exempt_iff_third :
    let refused := List.replicate 2000 '?'
    let config : Config := { rules := [
      ⟨['p'], ['a'], ['b'], [['*', '*']], false⟩,
      ⟨['q'], ['a'], ['b'], [refused], true⟩,
      ⟨['r'], ['a'], ['b'], [['?'], "x/?.go".toList], true⟩] }
    let session := (Session.start {}).refresh config
    let document : ScriptedDocument := { path := "x/y.go".toList, text := "\"a\"".toList }
    let saved := session.save ScriptedDocument.kind document 3
    Reached session ∧ session.config.enabled = true ∧
      session.cooldown.isCooling document.path 3 = false ∧
      saved.answer = .ok (.exempt ['r']) ∧ saved.document = document ∧ saved.session = session := by
  intro refused config session document saved
  have hreached : Reached session := .refresh config (.start {} {})
  have hanswer : saved.answer = .ok (.exempt ['r']) := by decide +kernel
  obtain ⟨-, hkeeps⟩ := hreached.exempt_iff.2.2 ScriptedDocument.kind document 3 rfl rfl
  obtain ⟨-, hsession, hdocument, -, -⟩ := hkeeps ['r'] hanswer
  exact ⟨hreached, rfl, rfl, hanswer, hdocument, hsession⟩

end Session

end Repath
