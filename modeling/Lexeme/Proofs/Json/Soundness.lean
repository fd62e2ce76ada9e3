import Lexeme.Proofs.Json.Values
import Mathlib.Data.List.TakeWhile

/-! What is read is a document. Main statement: a text is read as a value exactly if it is a
document that spells the value, within the bounds of the reader. -/

namespace Lexeme.Json

variable {start i fuel room : Nat} {negative : Bool} {c : Cursor} {cs rest : List Char}
  {ps : List CodePoint} {v : Json}

theorem exists_skipBlank (i : Nat) (cs : List Char) :
    ∃ bs, Blank bs ∧ cs = bs ++ (skipBlank i cs).rest := by
  induction cs generalizing i with
  | nil => exact ⟨[], blank_nil, rfl⟩
  | cons c cs ih =>
    rw [skipBlank]
    split
    · obtain ⟨bs, hbs, hcs⟩ := ih (i + 1)
      exact ⟨c :: bs, List.forall_mem_cons.mpr ⟨‹_›, hbs⟩, congrArg (c :: ·) hcs⟩
    · exact ⟨[], blank_nil, rfl⟩

/-! ### Texts -/

theorem map_eq_ok_iff {α β : Type} {f : α × Cursor → β × Cursor} {r : Read α} {y : β × Cursor} :
    r.map f = .ok y ↔ ∃ x, r = .ok x ∧ f x = y := by
  cases r <;> simp [Except.map]

theorem consPoint_eq_ok_iff {p : CodePoint} {r : Read (List CodePoint)} :
    consPoint p r = .ok (ps, c) ↔ ∃ qs, r = .ok (qs, c) ∧ ps = p :: qs := by
  rw [consPoint, map_eq_ok_iff]
  simp [Prod.ext_iff, eq_comm]

theorem StartsLow.isLowUnit_eq {a b c d : Char} {m : Nat}
    (h : StartsLow ('\\' :: 'u' :: a :: b :: c :: d :: rest)) (hm : unitValue? a b c d = some m) :
    isLowUnit m = true := by
  obtain ⟨a', b', c', d', n, rest', heq, hn, hlow⟩ := h
  simp only [List.cons.injEq, true_and] at heq
  obtain ⟨rfl, rfl, rfl, rfl, -⟩ := heq
  rw [hm, Option.some.injEq] at hn
  exact hn ▸ hlow

theorem StartsLow.append (h : StartsLow cs) (rest : List Char) : StartsLow (cs ++ rest) := by
  obtain ⟨a, b, c, d, n, tail, rfl, hn, hlow⟩ := h
  exact ⟨a, b, c, d, n, tail ++ rest, rfl, hn, hlow⟩

/-- What is read up to a quote is a body: the cases are those of the reader that do not fail. -/
theorem exists_body_of_readPoints (h : readPoints start i cs = .ok (ps, c)) :
    ∃ body, Body body ps ∧ cs = body ++ '"' :: c.rest := by
  fun_induction readPoints start i cs generalizing ps with
  | case2 =>
    cases h
    exact ⟨[], .nil, rfl⟩
  | case6 _ _ _ _ _ _ _ _ _ _ _ _ hn hhigh _ hm hlow ih =>
    obtain ⟨qs, hqs, rfl⟩ := consPoint_eq_ok_iff.mp h
    obtain ⟨body, hbody, htail⟩ := ih hqs
    exact ⟨_, .pair hn hhigh hm hlow hbody, by rw [htail]; rfl⟩
  | case7 _ _ _ _ _ _ _ _ _ _ _ _ hn _ _ hm hlow ih =>
    obtain ⟨qs, hqs, rfl⟩ := consPoint_eq_ok_iff.mp h
    obtain ⟨body, hbody, htail⟩ := ih hqs
    refine ⟨_, .unit hn (fun _ hstarts => ?_) hbody, by rw [htail]; rfl⟩
    exact hlow ((htail ▸ hstarts.append _ : StartsLow _).isLowUnit_eq hm)
  | case8 _ _ _ _ _ _ _ _ _ _ _ _ hn hhigh ih =>
    obtain ⟨qs, hqs, rfl⟩ := consPoint_eq_ok_iff.mp h
    obtain ⟨body, hbody, htail⟩ := ih hqs
    exact ⟨_, .unit hn (fun h => absurd h hhigh) hbody, by rw [htail]; rfl⟩
  | case10 _ _ _ _ _ _ _ hend _ hn ih =>
    obtain ⟨qs, hqs, rfl⟩ := consPoint_eq_ok_iff.mp h
    obtain ⟨body, hbody, htail⟩ := ih hqs
    refine ⟨_, .unit hn (fun _ hstarts => ?_) hbody, by rw [htail]; rfl⟩
    -- behind a second escape the closing quote at least would follow
    obtain ⟨e, f, g, h, m, after, rfl, -⟩ := hstarts
    obtain ⟨y, ys, hys⟩ := List.exists_cons_of_ne_nil (show after ++ '"' :: c.rest ≠ [] by simp)
    simp only [List.cons_append, hys, List.cons.injEq] at htail
    exact hend e f g h y ys htail.1 htail.2
  | case13 _ _ _ _ _ _ _ he ih =>
    obtain ⟨qs, hqs, rfl⟩ := consPoint_eq_ok_iff.mp h
    obtain ⟨body, hbody, htail⟩ := ih hqs
    exact ⟨_, .simple he hbody, by rw [htail]; rfl⟩
  | case15 _ _ _ hquote hend _ _ _ hslash hprint ih =>
    obtain ⟨qs, hqs, rfl⟩ := consPoint_eq_ok_iff.mp h
    obtain ⟨body, hbody, htail⟩ := ih hqs
    refine ⟨_, .plain hquote ?_ (Nat.not_lt.mp hprint) hbody, by rw [htail]; rfl⟩
    rintro rfl
    obtain ⟨y, ys, hys⟩ := List.exists_cons_of_ne_nil (show body ++ '"' :: c.rest ≠ [] by simp)
    exact hslash y ys rfl (htail.trans hys)
  | _ => cases h

theorem exists_quote_of_readText {s : Text} (h : readText i cs = .ok (s, c)) :
    ∃ body, Body body s.points ∧ '"' :: cs = quote body ++ c.rest := by
  rw [readText, map_eq_ok_iff] at h
  obtain ⟨⟨ps, after⟩, hread, heq⟩ := h
  cases heq
  obtain ⟨body, hbody, rfl⟩ := exists_body_of_readPoints hread
  exact ⟨body, hbody, (quote_append body _).symm⟩

/-! ### Numbers and words -/

theorem eq_append_of_split {ds : List Char} (h : Digits.split cs = (ds, rest)) :
    cs = ds ++ rest ∧ ∀ d ∈ ds, d.isDigit = true := by
  obtain ⟨rfl, rfl⟩ := Prod.mk.inj h
  exact ⟨(Digits.split_append cs).symm, fun _ hd => List.mem_takeWhile_imp hd⟩

theorem whole_of_readInteger? {ds : List Char} (h : readInteger? cs = some (ds, rest)) :
    Whole ds ∧ cs = ds ++ rest := by
  rw [readInteger?.eq_def] at h
  split at h
  · cases h
    exact ⟨⟨⟨List.cons_ne_nil _ _, List.forall_mem_singleton.mpr rfl⟩, fun _ => rfl⟩, rfl⟩
  · rename_i c tail hzero
    split at h
    · rename_i hc
      have hsplit := Option.some.inj h
      obtain ⟨heq, hds⟩ := eq_append_of_split hsplit
      cases ds with
      | nil => simp [Digits.split, hc] at hsplit
      | cons d ds =>
        refine ⟨⟨⟨List.cons_ne_nil _ _, hds⟩, fun hd => ?_⟩, heq⟩
        obtain ⟨rfl, -⟩ := List.cons.inj heq
        exact absurd (Option.some.inj hd) hzero
    · cases h
  · cases h

theorem exists_fraction_of_readFraction {fs : List Char} (h : readFraction cs = (fs, rest)) :
    ∃ fraction, Fraction fraction fs ∧ cs = fraction ++ rest := by
  rw [readFraction.eq_def] at h
  split at h
  · rename_i tail
    cases hsplit : Digits.split tail with
    | mk ds after =>
      obtain ⟨rfl, hds⟩ := eq_append_of_split hsplit
      simp only [hsplit] at h
      split at h
      · cases h
        exact ⟨[], .absent, rfl⟩
      · rename_i hne
        cases h
        exact ⟨_, .point ⟨by simpa using hne, hds⟩, rfl⟩
  · cases h
    exact ⟨[], .absent, rfl⟩

theorem exists_sign_of_readSign (h : readSign cs = (negative, rest)) :
    ∃ sign ∈ [[], ['+'], ['-']], cs = sign ++ rest ∧ negative = (sign == ['-']) := by
  rw [readSign.eq_def] at h
  split at h
  · cases h
    exact ⟨['-'], by decide, rfl, rfl⟩
  · cases h
    exact ⟨['+'], by decide, rfl, rfl⟩
  · cases h
    exact ⟨[], by decide, rfl, rfl⟩

theorem exists_exponent_of_readExponent? {e : Int} (h : readExponent? cs = some (e, rest)) :
    ∃ exponent, exponent ≠ [] ∧ Exponent exponent e ∧ cs = exponent ++ rest := by
  cases cs with
  | nil => cases h
  | cons mark tail =>
    rw [readExponent?] at h
    split at h
    · rename_i hmark
      cases hread : readSign tail with
      | mk negative after =>
        cases hsplit : Digits.split after with
        | mk ds after =>
          obtain ⟨sign, hsign, rfl, rfl⟩ := exists_sign_of_readSign hread
          obtain ⟨rfl, hds⟩ := eq_append_of_split hsplit
          simp only [hread, hsplit] at h
          split at h
          · cases h
          · rename_i hne
            have hpower := Exponent.power hmark hsign ⟨by simpa using hne, hds⟩
            simp only [beq_iff_eq] at h
            cases h
            exact ⟨_, List.cons_ne_nil _ _, hpower, by simp⟩
    · cases h

theorem exists_magnitude_of_readMagnitude (h : readMagnitude start negative cs = .ok (v, rest)) :
    ∃ used, Magnitude maxIntegerDigits negative used v ∧ cs = used ++ rest := by
  rw [readMagnitude] at h
  cases hinteger : readInteger? cs with
  | none =>
    rw [hinteger] at h
    cases h
  | some r =>
    obtain ⟨whole, tail⟩ := r
    obtain ⟨hwhole, rfl⟩ := whole_of_readInteger? hinteger
    cases hread : readFraction tail with
    | mk fs after =>
      obtain ⟨fraction, hfraction, rfl⟩ := exists_fraction_of_readFraction hread
      simp only [hinteger, hread, hfraction.isEmpty_eq] at h
      cases hexponent : readExponent? after with
      | some r =>
        obtain ⟨e, after⟩ := r
        obtain ⟨exponent, hne, he, rfl⟩ := exists_exponent_of_readExponent? hexponent
        simp only [hexponent] at h
        cases h
        exact ⟨_, .real hwhole hfraction he (.inr hne), by simp⟩
      | none =>
        simp only [hexponent] at h
        split at h
        · -- no fraction either, so it is an integer
          rename_i hempty _
          split at h
          · cases h
          · rename_i hlimit
            cases h
            obtain rfl := List.isEmpty_iff.mp hempty
            exact ⟨_, .int hwhole (Nat.not_lt.mp hlimit), rfl⟩
        · rename_i heq
          cases heq
        · rename_i hempty _
          cases h
          have hreal : Magnitude maxIntegerDigits negative (whole ++ (fraction ++ [])) _ :=
            .real hwhole hfraction .absent (.inl (by simpa using hempty))
          rw [Int.zero_sub, List.append_nil] at hreal
          exact ⟨_, hreal, by simp⟩

theorem exists_spells_of_readScalar {after : Cursor} (h : readScalar c = .ok (v, after)) :
    ∃ used, Spells maxIntegerDigits room used v ∧ c.rest = used ++ after.rest := by
  rw [readScalar] at h
  split at h
  · rename_i w v hfind
    cases h
    obtain ⟨tail, htail⟩ : w <+: c.rest := by simpa using List.find?_some hfind
    refine ⟨w, .word (List.mem_of_find?_eq_some hfind), ?_⟩
    rw [← htail, List.drop_left]
  · split at h
    rename_i negative digits hsign
    have hrest : c.rest = minus negative ++ digits := by
      split at hsign
      · cases hsign
        assumption
      · cases hsign
        rfl
    split at h
    · cases h
    · rename_i hread
      cases h
      obtain ⟨used, hused, rfl⟩ := exists_magnitude_of_readMagnitude hread
      exact ⟨_, .number negative hused, by rw [hrest, List.append_assoc]⟩

/-! ### Values -/

/-- The items up to a closing bracket are elements, whatever white space stands before them. -/
def ItemsSound (fuel : Nat) : Prop :=
  ∀ room c vs after, readItems fuel room c = .ok (vs, after) → ∀ bs, Blank bs →
    ∃ e es,
      bs ++ c.rest = Element.written e ++ (listed (es.map Element.written) ++ ']' :: after.rest) ∧
      vs = (e :: es).map Element.value ∧ ∀ f ∈ e :: es, Spells maxIntegerDigits room f.text f.value

/-- The fields up to a closing brace are members, whatever white space stands before them. -/
def FieldsSound (fuel : Nat) : Prop :=
  ∀ room known c fs after, readFields fuel room known c = .ok (fs, after) → ∀ bs, Blank bs →
    ∃ m ms,
      bs ++ c.rest = Member.written m ++ (listed (ms.map Member.written) ++ '\x7d' :: after.rest) ∧
      fs = Member.collect known (m :: ms) ∧
      ∀ f ∈ m :: ms, Spells maxIntegerDigits room f.text f.value

def ValueSound (fuel : Nat) : Prop :=
  ∀ room c v after, readValue fuel room c = .ok (v, after) →
    ∃ used, Spells maxIntegerDigits room used v ∧ c.rest = used ++ after.rest

variable {bs : List Char} {vs : List Json} {known fs : List (Text × Json)} {after : Cursor}

theorem valueSound_succ (hitems : ItemsSound fuel) (hfields : FieldsSound fuel) :
    ValueSound (fuel + 1) := by
  intro room c v after h
  rw [readValue.eq_def] at h
  dsimp only at h
  split at h
  case h_1 rest hrest =>
    obtain ⟨⟨s, c'⟩, hread, heq⟩ := map_eq_ok_iff.mp h
    cases heq
    obtain ⟨body, hbody, hquote⟩ := exists_quote_of_readText hread
    exact ⟨_, .text hbody, hrest.trans hquote⟩
  case h_3 rest room hrest =>
    obtain ⟨bs, hbs, hskip⟩ := exists_skipBlank (c.offset + 1) rest
    split at h
    · rename_i tail htail
      cases h
      refine ⟨_, .emptyArray hbs, ?_⟩
      rw [hrest, hskip, htail]
      simp
    · obtain ⟨⟨vs, c'⟩, hread, heq⟩ := map_eq_ok_iff.mp h
      cases heq
      obtain ⟨e, es, htext, rfl, hspells⟩ := hitems _ _ _ _ hread bs hbs
      refine ⟨_, .array hspells, ?_⟩
      rw [hrest, hskip, htext]
      simp
  case h_5 rest room hrest =>
    obtain ⟨bs, hbs, hskip⟩ := exists_skipBlank (c.offset + 1) rest
    split at h
    · rename_i tail htail
      cases h
      refine ⟨_, .emptyObject hbs, ?_⟩
      rw [hrest, hskip, htail]
      simp
    · obtain ⟨⟨fs, c'⟩, hread, heq⟩ := map_eq_ok_iff.mp h
      cases heq
      obtain ⟨m, ms, htext, rfl, hspells⟩ := hfields _ _ _ _ _ hread bs hbs
      refine ⟨_, .object hspells, ?_⟩
      rw [hrest, hskip, htext]
      simp
  case h_6 => exact exists_spells_of_readScalar h
  all_goals cases h

/-- The item at the head is an element, and what stands behind it decides how it goes on. -/
theorem exists_element_of_readItems (hvalue : ValueSound fuel) (hbs : Blank bs)
    (h : readItems (fuel + 1) room c = .ok (vs, after)) :
    ∃ (e : Element) (next : Cursor), bs ++ c.rest = e.written ++ next.rest ∧
      Spells maxIntegerDigits room e.text e.value ∧
      (match next.rest with
        | ']' :: rest => .ok ([e.value], ⟨next.offset + 1, rest⟩)
        | ',' :: rest => (readItems fuel room (skipBlank (next.offset + 1) rest)).map
            fun (vs, c) => (e.value :: vs, c)
        | _ => .error (.malformed .comma next.offset) : Read (List Json)) = .ok (vs, after) := by
  rw [readItems] at h
  split at h
  · cases h
  · rename_i v c' hread
    obtain ⟨used, hused, hrest⟩ := hvalue _ _ _ _ hread
    obtain ⟨as, has, hskip⟩ := exists_skipBlank c'.offset c'.rest
    refine ⟨⟨bs, used, as, v, Blank.append_iff.mpr ⟨hbs, has⟩⟩, c'.skip, ?_, hused, h⟩
    rw [hrest, hskip]
    simp [Element.written, Cursor.skip]

theorem itemsSound_succ (hvalue : ValueSound fuel) (hitems : ItemsSound fuel) :
    ItemsSound (fuel + 1) := by
  intro room c vs after h bs hbs
  obtain ⟨e, next, htext, hspells, h⟩ := exists_element_of_readItems hvalue hbs h
  split at h
  · rename_i rest hrest
    cases h
    exact ⟨e, [], by simp [htext, hrest], rfl, List.forall_mem_singleton.mpr hspells⟩
  · rename_i rest hrest
    obtain ⟨⟨ws, c'⟩, hread, heq⟩ := map_eq_ok_iff.mp h
    cases heq
    obtain ⟨gap, hgap, hskip⟩ := exists_skipBlank (next.offset + 1) rest
    obtain ⟨e', es, htail, rfl, hall⟩ := hitems _ _ _ _ hread gap hgap
    refine ⟨e, e' :: es, ?_, rfl, List.forall_mem_cons.mpr ⟨hspells, hall⟩⟩
    rw [htext, hrest, hskip, htail]
    simp
  · cases h

/-- The field at the head is a member, and what stands behind it decides how it goes on. -/
theorem exists_member_of_readFields (hvalue : ValueSound fuel) (hbs : Blank bs)
    (h : readFields (fuel + 1) room known c = .ok (fs, after)) :
    ∃ (m : Member) (next : Cursor), bs ++ c.rest = m.written ++ next.rest ∧
      Spells maxIntegerDigits room m.text m.value ∧
      (match next.rest with
        | '\x7d' :: rest => .ok (Tally.set m.key m.value known, ⟨next.offset + 1, rest⟩)
        | ',' :: rest => readFields fuel room (Tally.set m.key m.value known)
            (skipBlank (next.offset + 1) rest)
        | _ => .error (.malformed .comma next.offset) : Read (List (Text × Json))) =
          .ok (fs, after) := by
  rw [readFields] at h
  dsimp only at h
  split at h
  · rename_i rest hquote
    split at h
    · cases h
    · rename_i key c' hkey
      split at h
      · rename_i tail hcolon
        split at h
        · cases h
        · rename_i v c'' hread
          obtain ⟨body, hbody, hkey⟩ := exists_quote_of_readText hkey
          obtain ⟨gap, hgap, hskip⟩ := exists_skipBlank c'.offset c'.rest
          obtain ⟨lead, hlead, htail⟩ := exists_skipBlank (c'.skip.offset + 1) tail
          obtain ⟨used, hused, hrest⟩ := hvalue _ _ _ _ hread
          obtain ⟨as, has, hend⟩ := exists_skipBlank c''.offset c''.rest
          refine ⟨⟨⟨lead, used, as, v, Blank.append_iff.mpr ⟨hlead, has⟩⟩, bs, body, key, gap,
            Blank.append_iff.mpr ⟨hbs, hgap⟩, hbody⟩, c''.skip, ?_, hused, h⟩
          rw [Cursor.skip] at hcolon
          rw [hquote, hkey, hskip, hcolon, htail, hrest, hend]
          simp [Member.written, Element.written, Cursor.skip]
      · cases h
  · cases h

theorem fieldsSound_succ (hvalue : ValueSound fuel) (hfields : FieldsSound fuel) :
    FieldsSound (fuel + 1) := by
  intro room known c fs after h bs hbs
  obtain ⟨m, next, htext, hspells, h⟩ := exists_member_of_readFields hvalue hbs h
  split at h
  · rename_i rest hrest
    cases h
    exact ⟨m, [], by simp [htext, hrest], rfl, List.forall_mem_singleton.mpr hspells⟩
  · rename_i rest hrest
    obtain ⟨gap, hgap, hskip⟩ := exists_skipBlank (next.offset + 1) rest
    obtain ⟨m', ms, htail, rfl, hall⟩ := hfields _ _ _ _ _ h gap hgap
    refine ⟨m, m' :: ms, ?_, rfl, List.forall_mem_cons.mpr ⟨hspells, hall⟩⟩
    rw [htext, hrest, hskip, htail]
    simp
  · cases h

/-- One induction on the recursion carries all three: each is called by the others only. -/
theorem sound (fuel : Nat) : ValueSound fuel ∧ ItemsSound fuel ∧ FieldsSound fuel := by
  induction fuel with
  | zero =>
    refine ⟨fun _ _ _ _ h => ?_, fun _ _ _ _ h => ?_, fun _ _ _ _ _ h => ?_⟩
    · rw [readValue] at h
      cases h
    · rw [readItems] at h
      cases h
    · rw [readFields] at h
      cases h
  | succ fuel ih =>
    obtain ⟨hvalue, hitems, hfields⟩ := ih
    exact ⟨valueSound_succ hitems hfields, itemsSound_succ hvalue hitems,
      fieldsSound_succ hvalue hfields⟩

/-! ### Documents -/

theorem document_of_parse {depth : Nat} {text : String} (h : parse depth text = .ok v) :
    Document maxIntegerDigits depth text v := by
  rw [parse] at h
  split at h
  · cases h
  · split at h
    · cases h
    · rename_i w c hread
      dsimp only at h
      split at h
      · rename_i hend
        cases h
        obtain ⟨before, hbefore, hstart⟩ := exists_skipBlank 0 text.toList
        obtain ⟨after, hafter, hstop⟩ := exists_skipBlank c.offset c.rest
        obtain ⟨used, hused, hvalue⟩ := (sound _).1 _ _ _ _ hread
        have hnil : (skipBlank c.offset c.rest).rest = [] := List.isEmpty_iff.mp hend
        rw [hnil, List.append_nil] at hstop
        have htext : text.toList = before ++ (used ++ after) := by rw [hstart, hvalue, hstop]
        exact ⟨⟨before, used, after, v, Blank.append_iff.mpr ⟨hbefore, hafter⟩⟩, htext, rfl, hused⟩
      · cases h

/-- A text is read as a value exactly if it is a document that spells the value, within the bounds
of the reader. -/
theorem parse_eq_ok_iff {depth : Nat} {text : String} :
    parse depth text = .ok v ↔ Document maxIntegerDigits depth text v :=
  ⟨document_of_parse, Document.parse_eq⟩

theorem Spells.mono {limit depth room : Nat} {cs : List Char} (h : Spells limit depth cs v)
    (hle : depth ≤ room) : Spells limit room cs v := by
  induction h generalizing room with
  | text h => exact .text h
  | word h => exact .word h
  | number negative h => exact .number negative h
  | emptyArray h =>
    obtain ⟨room, rfl⟩ := Nat.exists_eq_add_of_le' (Nat.one_le_of_lt hle)
    exact .emptyArray h
  | array _ ih =>
    obtain ⟨room, rfl⟩ := Nat.exists_eq_add_of_le' (Nat.one_le_of_lt hle)
    exact .array fun f hf => ih f hf (Nat.le_of_succ_le_succ hle)
  | emptyObject h =>
    obtain ⟨room, rfl⟩ := Nat.exists_eq_add_of_le' (Nat.one_le_of_lt hle)
    exact .emptyObject h
  | object _ ih =>
    obtain ⟨room, rfl⟩ := Nat.exists_eq_add_of_le' (Nat.one_le_of_lt hle)
    exact .object fun f hf => ih f hf (Nat.le_of_succ_le_succ hle)

/-- What is read is read alike with more room for nesting. -/
theorem parse_mono {depth room : Nat} {text : String} (h : parse depth text = .ok v)
    (hle : depth ≤ room) : parse room text = .ok v := by
  obtain ⟨e, htext, hvalue, hspells⟩ := document_of_parse h
  exact Document.parse_eq ⟨e, htext, hvalue, hspells.mono hle⟩

end Lexeme.Json
