/-
What a reader gives (`read?_spec`). The value is well formed: containers nest within the limit,
fields are in the order of their keys, and whole numbers have 64 bits. And the reader steps over no
NUL, neither between values nor inside of them, so a text that holds one writes no document.
-/
import Repath.Json.Reader
import Repath.Proofs.Json
import Mathlib.Data.List.TakeWhile

namespace Repath.Json

/-! ## Well-formed values -/

/-- A value of at most `depth` containers inside each other, with fields in their order, and with
whole numbers of 64 bits, signed or not. -/
inductive Formed : Nat → Json → Prop
  | null {depth : Nat} : Formed depth null
  | bool {depth : Nat} (b : Bool) : Formed depth (bool b)
  | whole {depth : Nat} {n : Int} (hlow : -(UInt64.size / 2 : Nat) ≤ n) (hhigh : n < UInt64.size) :
      Formed depth (number (.whole n))
  | double {depth : Nat} (d : Double) : Formed depth (number (.double d))
  | string {depth : Nat} (s : Text) : Formed depth (string s)
  | array {depth : Nat} {items : List Json} (h : ∀ j ∈ items, Formed depth j) :
      Formed (depth + 1) (array items)
  | object {depth : Nat} {fields : Fields} (hordered : Ordered fields)
      (h : ∀ field ∈ fields, Formed depth field.2) : Formed (depth + 1) (object fields)

/-- All numbers of a value are whole ones. -/
inductive Whole : Json → Prop
  | null : Whole null
  | bool (b : Bool) : Whole (bool b)
  | number (n : Int) : Whole (number (.whole n))
  | string (s : Text) : Whole (string s)
  | array {items : List Json} (h : ∀ j ∈ items, Whole j) : Whole (array items)
  | object {fields : Fields} (h : ∀ field ∈ fields, Whole field.2) : Whole (object fields)

/-! ## Numbers -/

theorem foldl_digits_eq_ofDigitChars (digits : Text) (n : Nat) :
    digits.foldl (fun n c => n * 10 + digitValue c) n = Nat.ofDigitChars 10 digits n := by
  simp only [Nat.ofDigitChars_eq_foldl, digitValue, Nat.mul_comm]

theorem le_ofDigitChars (digits : Text) (n : Nat) : n ≤ Nat.ofDigitChars 10 digits n := by
  rw [Nat.ofDigitChars_eq_ofDigitChars_zero]
  exact Nat.le_add_right_of_le (Nat.le_mul_of_pos_left n (Nat.pow_pos (by decide)))

/-- All digits fit exactly if their number has 64 bits. -/
theorem absorb_eq_iff : ∀ {digits : Text} {n m : Nat}, n < UInt64.size →
    (absorb n digits = (m, []) ↔ Nat.ofDigitChars 10 digits n < UInt64.size ∧
      m = Nat.ofDigitChars 10 digits n)
  | [], n, m, h => by simp [absorb, h, eq_comm]
  | c :: digits, n, m, h => by
    have hstep : 10 * n + (c.toNat - '0'.toNat) = n * 10 + digitValue c := by
      rw [digitValue, Nat.mul_comm]
    rw [absorb, Nat.ofDigitChars_cons, hstep]
    split_ifs with hfits
    · exact absorb_eq_iff hfits
    · have hle := le_ofDigitChars digits (n * 10 + digitValue c)
      simp only [Prod.mk.injEq, reduceCtorEq, and_false, false_iff, not_and]
      omega

/-- Only a whole literal is a whole number, and only if it is not minus zero and has 64 bits. -/
theorem assemble_eq_whole_iff {negative : Bool} {digits : Text} {fraction : Option Text}
    {exponent : Option Int} {n : Int} :
    assemble negative digits fraction exponent = some (.whole n) ↔
      fraction = none ∧ exponent = none ∧
        (negative = false ∧ digitsValue digits < UInt64.size ∧ n = digitsValue digits ∨
          negative = true ∧ 0 < digitsValue digits ∧ digitsValue digits ≤ UInt64.size / 2 ∧
            n = -digitsValue digits) := by
  have hvalue : digitsValue digits = Nat.ofDigitChars 10 digits 0 :=
    foldl_digits_eq_ofDigitChars digits 0
  have hfits {m : Nat} : absorb 0 digits = (m, []) ↔
      digitsValue digits < UInt64.size ∧ m = digitsValue digits := by
    rw [hvalue]
    exact absorb_eq_iff (by decide)
  constructor
  · intro h
    cases habsorb : absorb 0 digits with
    | mk m left =>
      unfold assemble at h
      rw [habsorb] at h
      dsimp only at h
      split_ifs at h with hpositive hnegative
      · simp only [Bool.and_eq_true, Option.isNone_iff_eq_none, List.isEmpty_iff,
          Bool.not_eq_true'] at hpositive
        obtain ⟨⟨⟨rfl, rfl⟩, rfl⟩, rfl⟩ := hpositive
        obtain ⟨hlt, rfl⟩ := hfits.1 habsorb
        have hn := Number.whole.inj (Option.some.inj h)
        exact ⟨rfl, rfl, .inl ⟨rfl, hlt, hn.symm⟩⟩
      · simp only [Bool.and_eq_true, Option.isNone_iff_eq_none, List.isEmpty_iff,
          decide_eq_true_eq] at hpositive hnegative
        obtain ⟨⟨⟨⟨rfl, rfl⟩, rfl⟩, hpos⟩, hle⟩ := hnegative
        obtain ⟨hlt, rfl⟩ := hfits.1 habsorb
        have hn := Number.whole.inj (Option.some.inj h)
        exact ⟨rfl, rfl, .inr ⟨by simpa using hpositive, hpos, hle, hn.symm⟩⟩
      · obtain ⟨d, -, h⟩ := Option.map_eq_some_iff.1 h
        cases h
  · rintro ⟨rfl, rfl, ⟨rfl, hlt, rfl⟩ | ⟨rfl, hpos, hle, rfl⟩⟩
    · rw [assemble, hfits.2 ⟨hlt, rfl⟩]
      rfl
    · rw [assemble, hfits.2 ⟨Nat.lt_of_le_of_lt hle (by decide), rfl⟩]
      dsimp only
      rw [if_neg (by simp), if_pos (by simp [hpos, hle])]

theorem formed_of_assemble {depth : Nat} {negative : Bool} {whole : Text} {fraction : Option Text}
    {exponent : Option Int} {n : Number} (h : assemble negative whole fraction exponent = some n) :
    Formed depth (number n) := by
  cases n with
  | whole n =>
    obtain ⟨-, -, ⟨-, hlt, rfl⟩ | ⟨-, hpos, hle, rfl⟩⟩ := assemble_eq_whole_iff.1 h
    · exact .whole (by omega) (by omega)
    · exact .whole (by omega) (by omega)
  | double d => exact .double d

/-! ## Texts without a NUL -/

/-- If a text holds a NUL, so does what is left of it: none was stepped over. -/
def NulStays (t rest : Text) : Prop :=
  '\x00' ∈ t → '\x00' ∈ rest

theorem NulStays.refl (t : Text) : NulStays t t := id

theorem NulStays.trans {t u v : Text} (h : NulStays t u) (h' : NulStays u v) : NulStays t v :=
  h' ∘ h

theorem NulStays.cons {c : Char} {t rest : Text} (hc : c ≠ '\x00') (h : NulStays t rest) :
    NulStays (c :: t) rest :=
  fun hmem => h ((List.mem_cons.1 hmem).resolve_left hc.symm)

theorem nulStays_dropWhile {p : Char → Bool} (hp : p '\x00' = false) (t : Text) :
    NulStays t (t.dropWhile p) := by
  intro hmem
  rw [← List.takeWhile_append_dropWhile (p := p) (l := t)] at hmem
  refine (List.mem_append.1 hmem).resolve_left fun htake => ?_
  exact Bool.false_ne_true (hp.symm.trans (List.mem_takeWhile_imp htake))

theorem nulStays_skipSpace (t : Text) : NulStays t (skipSpace t) :=
  nulStays_dropWhile (by decide) t

theorem nulStays_of_readWhole {t digits rest : Text} (h : readWhole t = some (digits, rest)) :
    NulStays t rest := by
  unfold readWhole at h
  dsimp only at h
  split at h
  · cases h
  · split_ifs at h
    obtain ⟨-, rfl⟩ := Prod.mk.inj (Option.some.inj h)
    exact nulStays_dropWhile (by decide) t

theorem nulStays_of_readFraction {t rest : Text} {fraction : Option Text}
    (h : readFraction t = some (fraction, rest)) : NulStays t rest := by
  unfold readFraction at h
  split at h
  · rename_i t
    dsimp only at h
    split_ifs at h
    obtain ⟨-, rfl⟩ := Prod.mk.inj (Option.some.inj h)
    exact (nulStays_dropWhile (by decide) t).cons (by decide)
  · obtain ⟨-, rfl⟩ := Prod.mk.inj (Option.some.inj h)
    exact .refl t

theorem nulStays_of_readExponent {t rest : Text} {exponent : Option Int}
    (h : readExponent t = some (exponent, rest)) : NulStays t rest := by
  unfold readExponent at h
  split at h
  · obtain ⟨-, rfl⟩ := Prod.mk.inj (Option.some.inj h)
    exact .refl []
  · rename_i c t
    split_ifs at h with hc
    · refine .cons (fun hnul => absurd hc (by subst hnul; decide)) ?_
      dsimp only at h
      -- behind the letter there may be a sign
      split at h
      all_goals
        obtain ⟨-, h⟩ := Option.ite_none_left_eq_some.1 h
        obtain ⟨-, rfl⟩ := Prod.mk.inj (Option.some.inj h)
      · exact (nulStays_dropWhile (by decide) _).cons (by decide)
      · exact (nulStays_dropWhile (by decide) _).cons (by decide)
      · exact nulStays_dropWhile (by decide) t
    · obtain ⟨-, rfl⟩ := Prod.mk.inj (Option.some.inj h)
      exact .refl _

theorem readUnsigned_gives {depth : Nat} {negative : Bool} {t rest : Text} {j : Json}
    (h : readUnsigned negative t = some (j, rest)) : Formed depth j ∧ NulStays t rest := by
  simp only [readUnsigned, Option.bind_eq_bind, Option.pure_def, Option.bind_eq_some_iff] at h
  obtain ⟨⟨whole, u⟩, hwhole, ⟨fraction, v⟩, hfraction, ⟨exponent, w⟩, hexponent, n, hn, h⟩ := h
  obtain ⟨rfl, rfl⟩ := Prod.mk.inj (Option.some.inj h)
  refine ⟨formed_of_assemble hn, ?_⟩
  exact (nulStays_of_readWhole hwhole).trans
    ((nulStays_of_readFraction hfraction).trans (nulStays_of_readExponent hexponent))

/-! ## Texts -/

theorem NulStays.hex {c : Char} {n : Nat} {t rest : Text} (hc : hexValue? c = some n)
    (h : NulStays t rest) : NulStays (c :: t) rest := by
  refine h.cons fun hnul => ?_
  have hnone : hexValue? '\x00' = none := by decide
  cases hnone.symm.trans (hnul ▸ hc)

theorem nulStays_of_readUnit {t rest : Text} {n : Nat} (h : readUnit t = some (n, rest)) :
    NulStays t rest := by
  unfold readUnit at h
  split at h
  · simp only [Option.bind_eq_bind, Option.pure_def, Option.bind_eq_some_iff] at h
    obtain ⟨_, ha, _, hb, _, hc, _, hd, h⟩ := h
    obtain ⟨-, rfl⟩ := Prod.mk.inj (Option.some.inj h)
    exact ((((NulStays.refl _).hex hd).hex hc).hex hb).hex ha
  · cases h

theorem nulStays_of_readScalar {t rest : Text} {c : Char} (h : readScalar t = some (c, rest)) :
    NulStays t rest := by
  unfold readScalar at h
  rw [Option.bind_eq_bind, Option.bind_eq_some_iff] at h
  obtain ⟨⟨unit, u⟩, hunit, h⟩ := h
  refine (nulStays_of_readUnit hunit).trans ?_
  dsimp only at h
  split_ifs at h
  · split at h
    · -- the low half of a pair is read like the high one
      simp only [Option.pure_def, Option.bind_eq_some_iff, Option.ite_none_right_eq_some] at h
      obtain ⟨⟨low, v⟩, hlow, -, h⟩ := h
      obtain ⟨-, rfl⟩ := Prod.mk.inj (Option.some.inj h)
      exact ((nulStays_of_readUnit hlow).cons (by decide)).cons (by decide)
    · cases h
  · obtain ⟨-, rfl⟩ := Prod.mk.inj (Option.some.inj h)
    exact .refl _

theorem nulStays_of_readQuoted : ∀ (turns : Nat) {t done s rest : Text},
    readQuoted turns t done = some (s, rest) → NulStays t rest
  | 0, _, _, _, _, h => by cases h
  | turns + 1, [], _, _, _, h => by cases h
  | turns + 1, c :: t, done, s, rest, h => by
    rw [readQuoted.eq_def] at h
    dsimp only at h
    split_ifs at h with hquote hbackslash hcontrol
    · obtain ⟨-, rfl⟩ := Prod.mk.inj (Option.some.inj h)
      exact .cons (by rw [hquote]; decide) (.refl t)
    · refine .cons (by rw [hbackslash]; decide) ?_
      split at h
      · cases h
      · split at h
        · cases h
        · rename_i hscalar
          have hrest := nulStays_of_readQuoted turns h
          exact ((nulStays_of_readScalar hscalar).trans hrest).cons (by decide)
      · split at h
        · cases h
        · rename_i d hd
          refine .cons (fun hnul => ?_) (nulStays_of_readQuoted turns h)
          subst hnul
          cases hd
    · refine .cons (fun hnul => hcontrol ?_) (nulStays_of_readQuoted turns h)
      rw [hnul]
      decide

/-! ## Containers -/

/-- A reader of items gives values with a property, and steps over no NUL. -/
def Gives (item : Text → Option (Json × Text)) (good : Json → Prop) : Prop :=
  ∀ ⦃t rest : Text⦄ ⦃j : Json⦄, item t = some (j, rest) → good j ∧ NulStays t rest

variable {item : Text → Option (Json × Text)} {good : Json → Prop}

theorem readItems_gives (hitem : Gives item good) : ∀ (turns : Nat) {t rest : Text}
    {done items : List Json}, (∀ j ∈ done, good j) → readItems item turns t done = some (items, rest) →
      (∀ j ∈ items, good j) ∧ NulStays t rest
  | 0, _, _, _, _, _, h => by cases h
  | turns + 1, t, rest, done, items, hdone, h => by
    rw [readItems] at h
    split at h
    · cases h
    · rename_i j u hread
      obtain ⟨hj, hu⟩ := hitem hread
      have hmore : ∀ k ∈ j :: done, good k := List.forall_mem_cons.2 ⟨hj, hdone⟩
      have hspace := ((nulStays_skipSpace t).trans hu).trans (nulStays_skipSpace u)
      split at h
      · rename_i v hv
        obtain ⟨hitems, hrest⟩ := readItems_gives hitem turns hmore h
        exact ⟨hitems, hspace.trans (hv ▸ hrest.cons (by decide))⟩
      · rename_i v hv
        obtain ⟨rfl, rfl⟩ := Prod.mk.inj (Option.some.inj h)
        refine ⟨fun k hk => hmore k (List.mem_reverse.1 hk), ?_⟩
        exact hspace.trans (hv ▸ (NulStays.refl v).cons (by decide))
      · cases h

theorem nulStays_of_readKey {turns : Nat} {t key rest : Text}
    (h : readKey turns t = some (key, rest)) : NulStays t rest := by
  unfold readKey at h
  refine (nulStays_skipSpace t).trans ?_
  split at h
  · rename_i u hu
    rw [hu]
    split at h
    · cases h
    · rename_i v hquoted
      split at h
      · rename_i w hw
        obtain ⟨-, rfl⟩ := Prod.mk.inj (Option.some.inj h)
        have hcolon : NulStays (skipSpace v) w := hw ▸ (NulStays.refl w).cons (by decide)
        have hv := (nulStays_skipSpace v).trans hcolon
        exact ((nulStays_of_readQuoted turns hquoted).trans hv).cons (by decide)
      · cases h
  · cases h

theorem readFields_gives {length : Nat} (hitem : Gives item good) : ∀ (turns : Nat) {t rest : Text}
    {done fields : Fields}, (∀ field ∈ done, good field.2) →
      readFields length item turns t done = some (fields, rest) →
      (∀ field ∈ fields, good field.2) ∧ NulStays t rest
  | 0, _, _, _, _, _, h => by cases h
  | turns + 1, t, rest, done, fields, hdone, h => by
    rw [readFields] at h
    split at h
    · cases h
    · rename_i key u hkey
      split at h
      · cases h
      · rename_i j v hread
        obtain ⟨hj, hv⟩ := hitem hread
        have hmore : ∀ field ∈ (key, j) :: done, good field.2 := List.forall_mem_cons.2 ⟨hj, hdone⟩
        have hspace := ((nulStays_of_readKey hkey).trans (nulStays_skipSpace u)).trans
          (hv.trans (nulStays_skipSpace v))
        split at h
        · rename_i w hw
          obtain ⟨hfields, hrest⟩ := readFields_gives hitem turns hmore h
          exact ⟨hfields, hspace.trans (hw ▸ hrest.cons (by decide))⟩
        · rename_i w hw
          obtain ⟨rfl, rfl⟩ := Prod.mk.inj (Option.some.inj h)
          refine ⟨fun field hfield => hmore field (List.mem_reverse.1 hfield), ?_⟩
          exact hspace.trans (hw ▸ (NulStays.refl w).cons (by decide))
        · cases h

/-! ## Values -/

theorem nulStays_of_expect : ∀ {start t rest : Text}, '\x00' ∉ start →
    expect start t = some rest → NulStays t rest
  | [], t, rest, _, h => by
    obtain rfl := Option.some.inj h
    exact .refl t
  | c :: start, d :: t, rest, hstart, h => by
    rw [expect, Option.ite_none_right_eq_some] at h
    rw [List.mem_cons, not_or] at hstart
    obtain ⟨rfl, hrest⟩ := h
    exact (nulStays_of_expect hstart.2 hrest).cons (Ne.symm hstart.1)

theorem word_gives {start t rest : Text} {value j : Json} (hstart : '\x00' ∉ start)
    (h : (expect start t).map (fun t => (value, t)) = some (j, rest)) :
    j = value ∧ NulStays t rest := by
  obtain ⟨u, hexpect, h⟩ := Option.map_eq_some_iff.1 h
  obtain ⟨rfl, rfl⟩ := Prod.mk.inj h
  exact ⟨rfl, nulStays_of_expect hstart hexpect⟩

/-- One step of the reader, which reads the parts of a container with one container less. -/
theorem gives_readValue_step (length depth : Nat)
    (ih : ∀ below, depth = below + 1 → Gives (readValue length below) (Formed below)) :
    Gives (readValue length depth) (Formed depth) := by
  intro t rest j h
  cases t with
  | nil => rw [readValue.eq_def] at h; cases h
  | cons c t =>
    rw [readValue.eq_def] at h
    dsimp only at h
    by_cases hquote : c = '"'
    · rw [if_pos hquote] at h
      obtain ⟨⟨s, u⟩, hquoted, h⟩ := Option.map_eq_some_iff.1 h
      obtain ⟨rfl, rfl⟩ := Prod.mk.inj h
      exact ⟨.string s, (nulStays_of_readQuoted length hquoted).cons (by rw [hquote]; decide)⟩
    rw [if_neg hquote] at h
    by_cases hminus : c = '-'
    · rw [if_pos hminus] at h
      have hnumber : Formed depth j ∧ NulStays t rest := readUnsigned_gives h
      exact ⟨hnumber.1, hnumber.2.cons (by rw [hminus]; decide)⟩
    rw [if_neg hminus] at h
    by_cases hdigit : isDigit c = true
    · rw [if_pos hdigit] at h
      exact readUnsigned_gives h
    rw [if_neg hdigit] at h
    by_cases hnull : c = 'n'
    · rw [if_pos hnull] at h
      obtain ⟨rfl, hrest⟩ := word_gives (by decide) h
      exact ⟨.null, hrest.cons (by rw [hnull]; decide)⟩
    rw [if_neg hnull] at h
    by_cases htrue : c = 't'
    · rw [if_pos htrue] at h
      obtain ⟨rfl, hrest⟩ := word_gives (by decide) h
      exact ⟨.bool true, hrest.cons (by rw [htrue]; decide)⟩
    rw [if_neg htrue] at h
    by_cases hfalse : c = 'f'
    · rw [if_pos hfalse] at h
      obtain ⟨rfl, hrest⟩ := word_gives (by decide) h
      exact ⟨.bool false, hrest.cons (by rw [hfalse]; decide)⟩
    rw [if_neg hfalse] at h
    cases depth with
    | zero => cases h
    | succ depth =>
    dsimp only at h
    by_cases hbracket : c = '['
    · rw [if_pos hbracket] at h
      rw [hbracket]
      suffices hinside : Formed (depth + 1) j ∧ NulStays (skipSpace t) rest from
        ⟨hinside.1, ((nulStays_skipSpace t).trans hinside.2).cons (by decide)⟩
      split at h
      · rename_i u hu
        obtain ⟨rfl, rfl⟩ := Prod.mk.inj (Option.some.inj h)
        exact ⟨.array nofun, hu ▸ (NulStays.refl u).cons (by decide)⟩
      · obtain ⟨⟨items, u⟩, hread, h⟩ := Option.map_eq_some_iff.1 h
        obtain ⟨rfl, rfl⟩ := Prod.mk.inj h
        obtain ⟨hitems, hrest⟩ := readItems_gives (ih depth rfl) length (List.forall_mem_nil _) hread
        exact ⟨.array hitems, hrest⟩
    rw [if_neg hbracket] at h
    obtain ⟨hbrace, h⟩ := Option.ite_none_right_eq_some.1 h
    rw [hbrace]
    suffices hinside : Formed (depth + 1) j ∧ NulStays (skipSpace t) rest from
      ⟨hinside.1, ((nulStays_skipSpace t).trans hinside.2).cons (by decide)⟩
    split at h
    · rename_i u hu
      obtain ⟨rfl, rfl⟩ := Prod.mk.inj (Option.some.inj h)
      exact ⟨.object .nil nofun, hu ▸ (NulStays.refl u).cons (by decide)⟩
    · obtain ⟨⟨written, u⟩, hread, h⟩ := Option.map_eq_some_iff.1 h
      obtain ⟨rfl, rfl⟩ := Prod.mk.inj h
      obtain ⟨hfields, hrest⟩ := readFields_gives (ih depth rfl) length (List.forall_mem_nil _) hread
      have hsorted : ∀ field ∈ sortFields written, Formed depth field.2 :=
        fun field hfield => hfields field (mem_of_mem_sortFields hfield)
      exact ⟨.object (ordered_sortFields written) hsorted, hrest⟩

theorem gives_readValue (length : Nat) : ∀ depth, Gives (readValue length depth) (Formed depth)
  | 0 => gives_readValue_step length 0 nofun
  | depth + 1 => by
    refine gives_readValue_step length (depth + 1) fun below hbelow => ?_
    obtain rfl := Nat.succ.inj hbelow
    exact gives_readValue length depth

theorem read?_spec {t : Text} {j : Json} (h : read? t = some j) :
    Formed maxDepth j ∧ '\x00' ∉ t := by
  unfold read? at h
  split at h
  · rename_i found rest hread
    obtain ⟨hempty, h⟩ := Option.ite_none_right_eq_some.1 h
    obtain rfl := Option.some.inj h
    obtain ⟨hformed, hrest⟩ := gives_readValue _ maxDepth hread
    refine ⟨hformed, fun hnul => ?_⟩
    have hbehind := nulStays_skipSpace rest (hrest (nulStays_skipSpace t hnul))
    rw [List.isEmpty_iff.1 hempty] at hbehind
    cases hbehind
  · cases h

end Repath.Json
