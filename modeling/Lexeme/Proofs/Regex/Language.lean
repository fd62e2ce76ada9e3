import Lexeme.Proofs.Pattern
import Lexeme.Proofs.Regex.Plain
import Mathlib.Computability.Language

/-! The language of an expression: union, concatenation and repetition of sets of texts. Main
statement: an expression without zero-width tests ends exactly behind the texts of its language that
stand where it begins, and so it matches the texts of its language and no other. -/

namespace Lexeme

namespace Regex

open Computability

variable {t : Array Char} {r a b : Regex} {k : CharClass} {w : List Char} {i j n : Nat}

/-- The texts that an expression stands for, its zero-width tests left out. -/
def language : Regex → Language Char
  | .empty => 1
  | .never => 0
  | .one k => {w | ∃ c, k.test c = true ∧ w = [c]}
  | .boundary => 1
  | .seq a b => a.language * b.language
  | .alt a b => a.language + b.language
  | .notAhead _ => 1
  | .rep r low high => {w | ∃ n, low ≤ n ∧ (∀ b ∈ high, n ≤ max low b) ∧ w ∈ r.language ^ n}

/-! ### Texts that stand somewhere -/

theorem stands_nil (t : Array Char) (i : Nat) : Stands t i [] := fun _ hq => absurd hq (by simp)

theorem stands_singleton {c : Char} : Stands t i [c] ↔ t[i]? = some c := by
  constructor
  · intro h
    exact h 0 Nat.zero_lt_one
  · intro h q hq
    obtain rfl : q = 0 := Nat.lt_one_iff.mp hq
    exact h

theorem stands_append_iff {u v : List Char} :
    Stands t i (u ++ v) ↔ Stands t i u ∧ Stands t (i + u.length) v := by
  constructor
  · intro h
    refine ⟨fun q hq => ?_, fun q hq => ?_⟩
    · rw [h q (by rw [List.length_append]; omega), List.getElem?_append_left hq]
    · rw [Nat.add_assoc, h (u.length + q) (by rw [List.length_append]; omega),
        List.getElem?_append_right (by omega), Nat.add_sub_cancel_left]
  · rintro ⟨hu, hv⟩ q hq
    rw [List.length_append] at hq
    rcases Nat.lt_or_ge q u.length with hlt | hge
    · rw [hu q hlt, List.getElem?_append_left hlt]
    · rw [List.getElem?_append_right hge, ← hv (q - u.length) (by omega),
        show i + u.length + (q - u.length) = i + q by omega]

theorem Stands.le_size (h : Stands t i w) (hi : i ≤ t.size) : i + w.length ≤ t.size := by
  cases hw : w.length with
  | zero => exact hi
  | succ n =>
    have hlast := h n (by omega)
    rw [List.getElem?_eq_getElem (by omega)] at hlast
    have := (Array.getElem?_eq_some_iff.mp hlast).1
    omega

/-- Of the texts that stand at the start of a text only the whole text has its length. -/
theorem stands_whole {v : List Char} : Stands w.toArray 0 v ∧ w.length = v.length ↔ v = w := by
  constructor
  · rintro ⟨h, hlen⟩
    apply List.ext_getElem?
    intro q
    rcases Nat.lt_or_ge q v.length with hq | hq
    · rw [← h q hq, Nat.zero_add, List.getElem?_toArray]
    · rw [List.getElem?_eq_none hq, List.getElem?_eq_none (hlen ▸ hq)]
  · rintro rfl
    exact ⟨fun q _ => by rw [Nat.zero_add, List.getElem?_toArray], rfl⟩

theorem stands_behind {u v : List Char} : Stands (u ++ v).toArray u.length w ↔ w <+: v := by
  rw [stands_iff_begins, List.drop_left]

/-! ### Ends and texts -/

/-- The position lies behind a text of the language that stands at the start. -/
def Behind (t : Array Char) (l : Language Char) (i j : Nat) : Prop :=
  ∃ w ∈ l, Stands t i w ∧ j = i + w.length

theorem behind_one : Behind t 1 i j ↔ j = i := by
  constructor
  · rintro ⟨w, hw, -, rfl⟩
    rw [Language.mem_one] at hw
    rw [hw, List.length_nil, Nat.add_zero]
  · rintro rfl
    exact ⟨[], Language.nil_mem_one, stands_nil t j, rfl⟩

theorem behind_mul {l m : Language Char} :
    Behind t (l * m) i j ↔ ∃ p, Behind t l i p ∧ Behind t m p j := by
  constructor
  · rintro ⟨w, hw, hs, rfl⟩
    obtain ⟨u, hu, v, hv, rfl⟩ := Language.mem_mul.mp hw
    rw [stands_append_iff] at hs
    exact ⟨_, ⟨u, hu, hs.1, rfl⟩, v, hv, hs.2, by rw [List.length_append, Nat.add_assoc]⟩
  · rintro ⟨p, ⟨u, hu, hsu, rfl⟩, v, hv, hsv, rfl⟩
    refine ⟨u ++ v, Language.append_mem_mul hu hv, stands_append_iff.mpr ⟨hsu, hsv⟩, ?_⟩
    rw [List.length_append, Nat.add_assoc]

theorem Behind.le_size {l : Language Char} (h : Behind t l i j) (hi : i ≤ t.size) :
    j ≤ t.size := by
  obtain ⟨w, -, hs, rfl⟩ := h
  exact hs.le_size hi

/-- Rounds of an expression pass a text of its language each. -/
theorem rounds_iff_behind {l : Language Char}
    (h : ∀ i j, i ≤ t.size → (j ∈ ends t r i ↔ Behind t l i j)) (hi : i ≤ t.size) :
    Rounds (ends t r) n i j ↔ Behind t (l ^ n) i j := by
  induction n generalizing i with
  | zero =>
    rw [pow_zero, behind_one]
    constructor
    · rintro ⟨⟩
      rfl
    · rintro rfl
      exact .done j
  | succ n ih =>
    rw [pow_succ', behind_mul]
    constructor
    · rintro (_ | ⟨hm, hrest⟩)
      have hp := (h _ _ hi).mp hm
      exact ⟨_, hp, (ih (hp.le_size hi)).mp hrest⟩
    · rintro ⟨p, hp, hrest⟩
      exact .more ((h _ _ hi).mpr hp) ((ih (hp.le_size hi)).mpr hrest)

/-- A plain expression ends exactly behind the texts of its language. -/
theorem mem_ends_iff_behind (hr : r.plain = true) (hi : i ≤ t.size) :
    j ∈ ends t r i ↔ Behind t r.language i j := by
  induction r generalizing i j with
  | empty => rw [mem_ends_empty, language, behind_one]
  | never =>
    refine ⟨fun h => absurd h mem_ends_never, ?_⟩
    rintro ⟨w, hw, -⟩
    exact absurd hw (Language.notMem_zero w)
  | one k =>
    rw [mem_ends_one]
    constructor
    · rintro ⟨⟨c, hc, hk⟩, rfl⟩
      exact ⟨[c], ⟨c, hk, rfl⟩, stands_singleton.mpr hc, rfl⟩
    · rintro ⟨w, ⟨c, hk, rfl⟩, hs, rfl⟩
      exact ⟨⟨c, stands_singleton.mp hs, hk⟩, rfl⟩
  | boundary => cases hr
  | seq a b iha ihb =>
    obtain ⟨ha, hb⟩ := Bool.and_eq_true_iff.mp hr
    rw [mem_ends_seq, language, behind_mul]
    constructor
    · rintro ⟨p, hp, hj⟩
      have hp := (iha ha hi).mp hp
      exact ⟨p, hp, (ihb hb (hp.le_size hi)).mp hj⟩
    · rintro ⟨p, hp, hj⟩
      exact ⟨p, (iha ha hi).mpr hp, (ihb hb (hp.le_size hi)).mpr hj⟩
  | alt a b iha ihb =>
    obtain ⟨ha, hb⟩ := Bool.and_eq_true_iff.mp hr
    rw [mem_ends_alt, iha ha hi, ihb hb hi, language]
    constructor
    · rintro (⟨w, hw, hs⟩ | ⟨w, hw, hs⟩)
      · exact ⟨w, .inl hw, hs⟩
      · exact ⟨w, .inr hw, hs⟩
    · rintro ⟨w, hw | hw, hs⟩
      · exact .inl ⟨w, hw, hs⟩
      · exact .inr ⟨w, hw, hs⟩
  | notAhead r => cases hr
  | rep r low high ih =>
    obtain ⟨hplain, hnull⟩ := Bool.and_eq_true_iff.mp hr
    have hnull : r.nullable = false := by simpa using hnull
    have hrounds : ∀ {n j}, Rounds (ends t r) n i j ↔ Behind t (r.language ^ n) i j :=
      rounds_iff_behind (fun _ _ hi => ih hplain hi) hi
    constructor
    · intro h
      obtain ⟨n, hlow, hhigh, hn⟩ := rounds_of_mem_rep h
      obtain ⟨w, hw, hs⟩ := hrounds.mp hn
      exact ⟨w, ⟨n, hlow, hhigh, hw⟩, hs⟩
    · rintro ⟨w, ⟨n, hlow, hhigh, hw⟩, hs⟩
      exact mem_rep_of_rounds (fun _ _ => lt_of_mem_ends hnull) hi hlow hhigh
        (hrounds.mpr ⟨w, hw, hs⟩)

theorem ends_eq_nil_iff (hr : r.plain = true) (hi : i ≤ t.size) :
    ends t r i = [] ↔ ∀ w ∈ r.language, ¬ Stands t i w := by
  rw [List.eq_nil_iff_forall_not_mem]
  constructor
  · intro h w hw hs
    exact h _ ((mem_ends_iff_behind hr hi).mpr ⟨w, hw, hs, rfl⟩)
  · intro h j hj
    obtain ⟨w, hw, hs, -⟩ := (mem_ends_iff_behind hr hi).mp hj
    exact h w hw hs

/-- A plain expression matches the texts of its language and no other. -/
theorem fullMatch_iff_mem_language (hr : r.plain = true) :
    r.fullMatch w.toArray = true ↔ w ∈ r.language := by
  rw [fullMatch_iff, mem_ends_iff_behind hr (Nat.zero_le _), List.size_toArray]
  constructor
  · rintro ⟨v, hv, hs⟩
    rw [Nat.zero_add] at hs
    exact stands_whole.mp hs ▸ hv
  · intro hw
    refine ⟨w, hw, ?_⟩
    rw [Nat.zero_add]
    exact stands_whole.mpr rfl

/-! ### The languages of single expressions -/

@[simp] theorem language_seq (a b : Regex) : (seq a b).language = a.language * b.language := rfl

theorem mem_language_one : w ∈ (one k).language ↔ ∃ c, k.test c = true ∧ w = [c] := Iff.rfl

theorem mem_language_rep {low : Nat} {high : Option Nat} : w ∈ (rep r low high).language ↔
    ∃ n, low ≤ n ∧ (∀ b ∈ high, n ≤ max low b) ∧ w ∈ r.language ^ n := Iff.rfl

@[simp] theorem mem_language_chars {cs : List Char} : w ∈ (chars cs).language ↔ w = cs := by
  induction cs generalizing w with
  | nil => exact Language.mem_one w
  | cons c cs ih =>
    rw [chars, language_seq, Language.mem_mul]
    constructor
    · rintro ⟨u, ⟨d, hd, rfl⟩, v, hv, rfl⟩
      rw [CharClass.test_single, decide_eq_true_eq] at hd
      rw [ih.mp hv, hd]
      rfl
    · rintro rfl
      exact ⟨[c], ⟨c, by simp, rfl⟩, cs, ih.mpr rfl, rfl⟩

@[simp] theorem language_star (r : Regex) : (rep r 0 none).language = r.language∗ := by
  ext w
  rw [mem_language_rep, Language.kstar_eq_iSup_pow, Language.mem_iSup]
  simp

@[simp] theorem language_plus (r : Regex) : (rep r 1 none).language = r.language * r.language∗ := by
  ext w
  rw [mem_language_rep, Language.kstar_eq_iSup_pow, Language.mul_iSup, Language.mem_iSup]
  constructor
  · rintro ⟨n, hn, -, hw⟩
    refine ⟨n - 1, ?_⟩
    rwa [← pow_succ', Nat.sub_add_cancel hn]
  · rintro ⟨n, hw⟩
    exact ⟨n + 1, Nat.le_add_left 1 n, by simp, by rwa [pow_succ']⟩

@[simp] theorem language_optional (r : Regex) :
    (rep r 0 (some 1)).language = 1 + r.language := by
  ext w
  rw [mem_language_rep, Language.mem_add]
  constructor
  · rintro ⟨n, -, hn, hw⟩
    have hn := hn 1 rfl
    rcases Nat.le_one_iff_eq_zero_or_eq_one.mp (by omega : n ≤ 1) with rfl | rfl
    · exact .inl (by rwa [pow_zero] at hw)
    · exact .inr (by rwa [pow_one] at hw)
  · rintro (hw | hw)
    · exact ⟨0, Nat.le_refl 0, by simp, by rwa [pow_zero]⟩
    · exact ⟨1, Nat.zero_le 1, by simp, by rwa [pow_one]⟩

/-! ### Texts of one class -/

theorem mem_language_one_pow : w ∈ (one k).language ^ n ↔
    w.length = n ∧ ∀ c ∈ w, k.test c = true := by
  induction n generalizing w with
  | zero =>
    rw [pow_zero, Language.mem_one, List.length_eq_zero_iff]
    constructor
    · rintro rfl
      exact ⟨rfl, by simp⟩
    · exact fun h => h.1
  | succ n ih =>
    rw [pow_succ', Language.mem_mul]
    constructor
    · rintro ⟨u, ⟨c, hc, rfl⟩, v, hv, rfl⟩
      obtain ⟨hlen, hall⟩ := ih.mp hv
      refine ⟨by simp [hlen], fun d hd => ?_⟩
      rcases List.mem_cons.mp hd with rfl | hd
      · exact hc
      · exact hall d hd
    · rintro ⟨hlen, hall⟩
      cases w with
      | nil => cases hlen
      | cons c w =>
        refine ⟨[c], ⟨c, hall c List.mem_cons_self, rfl⟩, w, ih.mpr ⟨?_, fun d hd => ?_⟩, rfl⟩
        · simpa using hlen
        · exact hall d (List.mem_cons_of_mem c hd)

/-- A repetition of one class has a number of its characters within the bounds. -/
theorem mem_language_rep_one {low : Nat} {high : Option Nat} :
    w ∈ (rep (one k) low high).language ↔
      (low ≤ w.length ∧ ∀ b ∈ high, w.length ≤ max low b) ∧ ∀ c ∈ w, k.test c = true := by
  rw [mem_language_rep]
  simp only [mem_language_one_pow]
  constructor
  · rintro ⟨n, hlow, hhigh, rfl, hall⟩
    exact ⟨⟨hlow, hhigh⟩, hall⟩
  · rintro ⟨⟨hlow, hhigh⟩, hall⟩
    exact ⟨w.length, hlow, hhigh, rfl, hall⟩

end Regex

/-! ### What patterns spell -/

namespace Pattern

open Regex Computability

variable {p q : Pattern} {body : String} {P : Char → Prop} {u v w : List Char}

/-- The text is of the language of the pattern. -/
def Spells (p : Pattern) (w : List Char) : Prop := w ∈ p.toRegex.language

theorem spells_append : (p ++ q).Spells w ↔ ∃ u v, w = u ++ v ∧ p.Spells u ∧ q.Spells v := by
  constructor
  · intro h
    obtain ⟨u, hu, v, hv, rfl⟩ := Language.mem_mul.mp h
    exact ⟨u, v, rfl, hu, hv⟩
  · rintro ⟨u, v, rfl, hu, hv⟩
    exact Language.append_mem_mul hu hv

theorem Spells.append (hu : p.Spells u) (hv : q.Spells v) : (p ++ q).Spells (u ++ v) :=
  spells_append.mpr ⟨u, v, rfl, hu, hv⟩

theorem spells_orElse : (p <|> q).Spells w ↔ p.Spells w ∨ q.Spells w := Iff.rfl

theorem spells_optional : (optional p).Spells w ↔ w = [] ∨ p.Spells w := by
  rw [Spells, toRegex_optional, language_optional]
  rfl

theorem spells_literal {text : String} : (literal text).Spells w ↔ w = text.toList :=
  mem_language_chars

theorem spells_literal_append {text : String} :
    (literal text ++ p).Spells w ↔ ∃ v, w = text.toList ++ v ∧ p.Spells v := by
  simp [spells_append, spells_literal]

theorem spells_append_literal {text : String} :
    (p ++ literal text).Spells w ↔ ∃ u, w = u ++ text.toList ∧ p.Spells u := by
  simp [spells_append, spells_literal]

theorem language_set (body : String) :
    (set body).toRegex.language = (one (.ofBody body)).language := by
  rcases toRegex_set body with h | ⟨h, hbody⟩
  · rw [h]
  · rw [h, hbody]
    ext w
    refine ⟨fun hw => absurd hw (Language.notMem_zero w), ?_⟩
    rintro ⟨c, hc, -⟩
    cases hc

theorem language_rep_set (body : String) (low : Nat) (high : Option Nat) :
    (Regex.rep (set body).toRegex low high).language =
      (Regex.rep (one (.ofBody body)) low high).language := by
  ext w
  rw [mem_language_rep, mem_language_rep, language_set]

section Class

variable (h : ∀ c, (CharClass.ofBody body).test c = true ↔ P c)

include h

theorem spells_set : (set body).Spells w ↔ ∃ c, P c ∧ w = [c] := by
  rw [Spells, language_set, mem_language_one]
  simp only [h]

theorem spells_star_set : (star (set body)).Spells w ↔ ∀ c ∈ w, P c := by
  rw [Spells, toRegex_star, language_rep_set, mem_language_rep_one]
  simp [h]

theorem spells_plus_set : (plus (set body)).Spells w ↔ w ≠ [] ∧ ∀ c ∈ w, P c := by
  rw [Spells, toRegex_plus, language_rep_set, mem_language_rep_one]
  simp [h, ← List.length_pos_iff, Nat.succ_le_iff]

theorem spells_rep_set {low : Nat} {high : Option Nat} (hbounds : low ≤ high.getD low) :
    (rep (set body) low high).Spells w ↔
      (low ≤ w.length ∧ w.length ≤ high.getD low) ∧ ∀ c ∈ w, P c := by
  rw [Spells, toRegex, language_rep_set, mem_language_rep_one]
  simp only [h, Option.mem_some_iff, forall_eq', Nat.max_eq_right hbounds]

end Class

theorem spells_star_blank : (star blank).Spells w ↔ ∀ c ∈ w, Blank.isBlank c = true := by
  rw [Spells, toRegex_star, toRegex, mem_language_rep_one]
  simp

theorem spells_plus_blank :
    (plus blank).Spells w ↔ w ≠ [] ∧ ∀ c ∈ w, Blank.isBlank c = true := by
  rw [Spells, toRegex_plus, toRegex, mem_language_rep_one]
  simp [← List.length_pos_iff, Nat.succ_le_iff]

/-! ### Repetitions of a pattern -/

theorem spells_plus : (plus p).Spells w ↔ (p ++ star p).Spells w := by
  rw [Spells, toRegex_plus, language_plus, ← language_star]
  rfl

theorem spells_star_nil (p : Pattern) : (star p).Spells [] := by
  rw [Spells, toRegex_star, language_star]
  exact Language.nil_mem_kstar _

theorem Spells.star_cons (hu : p.Spells u) (hv : (star p).Spells v) : (star p).Spells (u ++ v) := by
  rw [Spells, toRegex_star, language_star] at hv ⊢
  rw [← Language.one_add_self_mul_kstar_eq_kstar]
  exact .inr (Language.append_mem_mul hu hv)

theorem Spells.star_concat (hu : (star p).Spells u) (hv : p.Spells v) :
    (star p).Spells (u ++ v) := by
  rw [Spells, toRegex_star, language_star] at hu ⊢
  rw [← Language.one_add_kstar_mul_self_eq_kstar]
  exact .inr (Language.append_mem_mul hu hv)

/-- Induction on the rounds of a repetition, from the last to the first. -/
theorem Spells.star_rec {motive : List Char → Prop} (nil : motive [])
    (cons : ∀ u v, p.Spells u → motive v → motive (u ++ v)) (hw : (star p).Spells w) :
    motive w := by
  rw [Spells, toRegex_star, language_star] at hw
  obtain ⟨pieces, rfl, hall⟩ := Language.mem_kstar.mp hw
  clear hw
  induction pieces with
  | nil => exact nil
  | cons u pieces ih =>
    rw [List.flatten_cons]
    exact cons u _ (hall u List.mem_cons_self)
      (ih fun y hy => hall y (List.mem_cons_of_mem u hy))

/-! A text of one pattern and then of any number of another is built from the left. -/

theorem Spells.seq_star (hu : p.Spells u) : (p ++ star q).Spells u := by
  have h := hu.append (spells_star_nil q)
  rwa [List.append_nil] at h

theorem Spells.seq_star_concat (hu : (p ++ star q).Spells u) (hv : q.Spells v) :
    (p ++ star q).Spells (u ++ v) := by
  obtain ⟨x, y, rfl, hx, hy⟩ := spells_append.mp hu
  rw [List.append_assoc]
  exact hx.append (hy.star_concat hv)

theorem Spells.seq_star_rec {motive : List Char → Prop} (first : ∀ u, p.Spells u → motive u)
    (step : ∀ u v, motive u → q.Spells v → motive (u ++ v)) (hw : (p ++ star q).Spells w) :
    motive w := by
  obtain ⟨u, v, rfl, hu, hv⟩ := spells_append.mp hw
  have hrounds : ∀ u, motive u → motive (u ++ v) := by
    refine hv.star_rec (motive := fun v => ∀ u, motive u → motive (u ++ v)) ?_ ?_
    · intro u hu
      rwa [List.append_nil]
    · intro x v hx ih u hu
      rw [← List.append_assoc]
      exact ih _ (step u x hu hx)
  exact hrounds u (first u hu)

end Pattern

end Lexeme
