import PacketHost.Json.Reader
import PacketHost.Proofs.Json.Scanning

/-!
# Reading is exact

The reader accepts a text exactly if the grammar says that the text is JSON, and answers with the value of which it is
a text (`read?_eq_some_iff`). One direction follows a value through the reader. For the other one, the tokens that led
to a state of the reader can be told from the state (`Reader.tokens`).
-/

namespace PacketHost.Json

/-! ## Tokens of arrays and objects -/

def Value.listed (v : Value) : List Token := v.tokens ++ [.comma]

def listedMember (m : List Char × Value) : List Token := .string m.1 :: .colon :: m.2.listed

namespace Value

theorem elementTokens_concat (vs : List Value) (v : Value) :
    elementTokens (vs ++ [v]) = vs.flatMap listed ++ (v.tokens ++ [.closeArray]) := by
  induction vs with
  | nil => rfl
  | cons w vs ih =>
      rw [List.cons_append, elementTokens, ih, List.flatMap_cons, listed]
      · simp only [List.append_assoc, List.cons_append, List.nil_append]
      · exact List.append_ne_nil_of_right_ne_nil vs (List.cons_ne_nil v [])

theorem memberTokens_concat (ms : List (List Char × Value)) (m : List Char × Value) :
    memberTokens (ms ++ [m]) = ms.flatMap listedMember ++ (.string m.1 :: .colon :: (m.2.tokens ++ [.closeObject])) := by
  induction ms with
  | nil => rfl
  | cons k ms ih =>
      rw [List.cons_append, memberTokens, ih, List.flatMap_cons, listedMember, listed]
      · simp only [List.append_assoc, List.cons_append, List.nil_append]
      · exact List.append_ne_nil_of_right_ne_nil ms (List.cons_ne_nil m [])

end Value

/-! ## The tokens behind a state -/

def Open.tokens : Open → List Token
  | .array before => .openArray :: before.reverse.flatMap Value.listed
  | .object before name => .openObject :: (before.reverse.flatMap listedMember ++ [.string name, .colon])

def Expected.tokens : Expected → List Token
  | .value => []
  | .firstElement => [.openArray]
  | .firstName => [.openObject]
  | .name before => .openObject :: before.reverse.flatMap listedMember
  | .colon before key => .openObject :: (before.reverse.flatMap listedMember ++ [.string key])
  | .next v => v.tokens

def Open.allTokens (stack : List Open) : List Token := stack.reverse.flatMap Open.tokens

theorem Open.allTokens_cons (o : Open) (stack : List Open) : allTokens (o :: stack) = allTokens stack ++ o.tokens := by
  simp [allTokens]

namespace Reader

variable {r r' : Reader} {t : Token} {stack : List Open}

/-- The tokens that lead to a state. -/
def tokens (r : Reader) : List Token := Open.allTokens r.stack ++ r.expected.tokens

theorem tokens_of_stepValue (h : stepValue stack t = some r) : r.tokens = Open.allTokens stack ++ [t] := by
  cases t with
  | null | bool b | number literal | string content | openArray | openObject =>
      cases h
      rfl
  | _ => cases h

/-- The first element of an array is read as a value of the array that is open by then. -/
theorem step_firstElement (h : t ≠ .closeArray) :
    step ⟨stack, .firstElement⟩ t = step ⟨.array [] :: stack, .value⟩ t := by
  cases t with
  | closeArray => exact absurd rfl h
  | _ => rfl

theorem tokens_of_stepNext {v : Value} (h : stepNext v stack t = some r) :
    r.tokens = Open.allTokens stack ++ v.tokens ++ [t] := by
  unfold stepNext at h
  split at h
  case h_1 before stack =>
    cases h
    simp [tokens, Open.allTokens_cons, Open.tokens, Expected.tokens, Value.listed]
  case h_2 before stack =>
    cases h
    simp [tokens, Open.allTokens_cons, Open.tokens, Expected.tokens, Value.tokens, Value.elementTokens_concat]
  case h_3 before name stack =>
    cases h
    simp [tokens, Open.allTokens_cons, Open.tokens, Expected.tokens, Value.listed, listedMember]
  case h_4 before name stack =>
    cases h
    simp [tokens, Open.allTokens_cons, Open.tokens, Expected.tokens, Value.tokens, Value.memberTokens_concat]
  case h_5 => cases h

theorem tokens_of_step (h : r.step t = some r') : r'.tokens = r.tokens ++ [t] := by
  obtain ⟨stack, expected⟩ := r
  cases expected with
  | value =>
      rw [tokens_of_stepValue h, tokens, Expected.tokens, List.append_nil]
  | firstElement =>
      by_cases hclose : t = .closeArray
      · subst hclose
        cases h
        simp [tokens, Expected.tokens, Value.tokens, Value.elementTokens]
      · rw [step_firstElement hclose] at h
        rw [tokens_of_stepValue h, Open.allTokens_cons]
        rfl
  | firstName =>
      cases t with
      | closeObject =>
          cases h
          simp [tokens, Expected.tokens, Value.tokens, Value.memberTokens]
      | string key =>
          cases h
          simp [tokens, Expected.tokens]
      | _ => cases h
  | name before =>
      cases t with
      | string key =>
          cases h
          simp [tokens, Expected.tokens]
      | _ => cases h
  | colon before key =>
      cases t with
      | colon =>
          cases h
          simp [tokens, Open.allTokens_cons, Open.tokens, Expected.tokens]
      | _ => cases h
  | next v => exact tokens_of_stepNext h

theorem tokens_of_steps {ts : List Token} (h : r.steps ts = some r') : r'.tokens = r.tokens ++ ts := by
  induction ts generalizing r with
  | nil =>
      cases h
      rw [List.append_nil]
  | cons t ts ih =>
      rw [steps] at h
      split at h
      · rename_i next hstep
        rw [ih h, tokens_of_step hstep, List.append_assoc, List.singleton_append]
      · cases h

/-! ## Following a value -/

theorem steps_append (r : Reader) (ts us : List Token) : r.steps (ts ++ us) = (r.steps ts).bind fun r => r.steps us := by
  induction ts generalizing r with
  | nil => rfl
  | cons t ts ih =>
      rw [List.cons_append, steps, steps]
      cases r.step t with
      | none => rfl
      | some r => exact ih r

theorem steps_of_append {ts : List Token} (us : List Token) (h : r.steps ts = some r') :
    r.steps (ts ++ us) = r'.steps us := by
  rw [steps_append, h, Option.bind_some]

theorem exists_tokens_cons (v : Value) : ∃ t ts, v.tokens = t :: ts ∧ t ≠ .closeArray := by
  cases v with
  | null | bool b | number literal | string content | array elements | object members =>
      refine ⟨_, _, rfl, ?_⟩
      exact nofun

theorem exists_elementTokens_cons (v : Value) (vs : List Value) :
    ∃ t ts, Value.elementTokens (v :: vs) = t :: ts ∧ t ≠ .closeArray := by
  obtain ⟨t, ts, htokens, hclose⟩ := exists_tokens_cons v
  cases vs with
  | nil => exact ⟨t, _, by rw [Value.elementTokens, htokens, List.cons_append], hclose⟩
  | cons w vs => exact ⟨t, _, by rw [Value.elementTokens, htokens, List.cons_append]; exact nofun, hclose⟩

theorem exists_memberTokens_cons (m : List Char × Value) (ms : List (List Char × Value)) :
    ∃ ts, Value.memberTokens (m :: ms) = .string m.1 :: ts := by
  cases ms with
  | nil => exact ⟨_, rfl⟩
  | cons n ms => exact ⟨_, rfl⟩

theorem steps_firstElement (stack : List Open) (v : Value) (vs : List Value) :
    steps ⟨stack, .firstElement⟩ (Value.elementTokens (v :: vs)) =
      steps ⟨.array [] :: stack, .value⟩ (Value.elementTokens (v :: vs)) := by
  obtain ⟨t, ts, htokens, hclose⟩ := exists_elementTokens_cons v vs
  rw [htokens, steps, steps, step_firstElement hclose]

theorem steps_firstName (stack : List Open) (m : List Char × Value) (ms : List (List Char × Value)) :
    steps ⟨stack, .firstName⟩ (Value.memberTokens (m :: ms)) =
      steps ⟨stack, .name []⟩ (Value.memberTokens (m :: ms)) := by
  obtain ⟨ts, htokens⟩ := exists_memberTokens_cons m ms
  rw [htokens]
  rfl

mutual
theorem steps_tokens (stack : List Open) : (v : Value) →
    steps ⟨stack, .value⟩ v.tokens = some ⟨stack, .next v⟩
  | .null => rfl
  | .bool _ => rfl
  | .number _ => rfl
  | .string _ => rfl
  | .array [] => by
      rw [Value.tokens, Value.elementTokens]
      rfl
  | .array (v :: vs) => by
      rw [Value.tokens, steps]
      exact (steps_firstElement stack v vs).trans (steps_elementTokens stack [] (v :: vs) (List.cons_ne_nil v vs))
  | .object [] => by
      rw [Value.tokens, Value.memberTokens]
      rfl
  | .object (m :: ms) => by
      rw [Value.tokens, steps]
      exact (steps_firstName stack m ms).trans (steps_memberTokens stack [] (m :: ms) (List.cons_ne_nil m ms))

theorem steps_elementTokens (stack : List Open) (before : List Value) : (vs : List Value) → vs ≠ [] →
    steps ⟨.array before :: stack, .value⟩ (Value.elementTokens vs) =
      some ⟨stack, .next (.array (before.reverse ++ vs))⟩
  | [], h => absurd rfl h
  | [v], _ => by
      rw [Value.elementTokens, steps_of_append _ (steps_tokens _ v), ← List.reverse_cons]
      rfl
  | v :: w :: vs, _ => by
      have hrest := steps_elementTokens stack (v :: before) (w :: vs) (List.cons_ne_nil w vs)
      rw [List.reverse_cons, List.append_assoc, List.singleton_append] at hrest
      rw [Value.elementTokens, steps_of_append _ (steps_tokens _ v)]
      · exact hrest
      · exact List.cons_ne_nil w vs

theorem steps_memberTokens (stack : List Open) (before : List (List Char × Value)) :
    (ms : List (List Char × Value)) → ms ≠ [] →
    steps ⟨stack, .name before⟩ (Value.memberTokens ms) = some ⟨stack, .next (.object (before.reverse ++ ms))⟩
  | [], h => absurd rfl h
  | [(k, v)], _ => by
      have hvalue := steps_of_append [.closeObject] (steps_tokens (.object before k :: stack) v)
      rw [Value.memberTokens, ← List.reverse_cons]
      exact hvalue
  | (k, v) :: m :: ms, _ => by
      have hvalue := steps_of_append (.comma :: Value.memberTokens (m :: ms))
        (steps_tokens (.object before k :: stack) v)
      have hrest := steps_memberTokens stack ((k, v) :: before) (m :: ms) (List.cons_ne_nil m ms)
      rw [List.reverse_cons, List.append_assoc, List.singleton_append] at hrest
      rw [Value.memberTokens]
      · exact hvalue.trans hrest
      · exact List.cons_ne_nil m ms
end

/-! ## Texts -/

theorem isBlank_iff {c : Char} : isBlank c = true ↔ c = ' ' ∨ c = '\t' ∨ c = '\n' ∨ c = '\r' := by
  simp [isBlank, or_assoc]

theorem isBlank_eq_false {c : Char} (h : isDigit c = true ∨ c = '-') : isBlank c = false := by
  refine Bool.eq_false_iff.mpr fun hblank => ?_
  rcases isBlank_iff.mp hblank with rfl | rfl | rfl | rfl
  all_goals
    revert h
    decide

/-- A token starts with a character that is no blank, and with one that ends a number unless it is a number itself. -/
theorem text_cons {t : Token} (ht : t.WellFormed) : ∃ c tail, t.text = c :: tail ∧ isBlank c = false ∧
    ((∀ literal, t ≠ .number literal) → isDigit c = false ∧ c ≠ '.' ∧ c ≠ 'e' ∧ c ≠ 'E') := by
  cases t with
  | number literal =>
      obtain ⟨c, tail, hc, rfl⟩ := IsNumber.exists_cons ht
      exact ⟨c, tail, rfl, isBlank_eq_false hc, fun h => absurd rfl (h _)⟩
  | bool b => cases b <;> exact ⟨_, _, rfl, by decide, fun _ => by decide⟩
  | _ => exact ⟨_, _, rfl, by decide, fun _ => by decide⟩

theorem endsNumber_of_spaced {s : List Char} {ts : List Token} (h : Spaced s ts)
    (hts : ∀ literal, .number literal ∉ ts.head?) : EndsNumber s := by
  intro c hc
  cases h with
  | nil => cases hc
  | blank hblank h =>
      cases hc
      rcases isBlank_iff.mp hblank with rfl | rfl | rfl | rfl
      all_goals decide
  | token ht h =>
      obtain ⟨c', tail, htext, -, hends⟩ := text_cons ht
      rw [htext] at hc
      cases hc
      exact hends fun literal heq => hts literal (congrArg some heq)

theorem step_next (v : Value) (stack : List Open) (t : Token) : step ⟨stack, .next v⟩ t = stepNext v stack t := by
  cases t <;> rfl

theorem stepNext_number (v : Value) (stack : List Open) (literal : List Char) :
    stepNext v stack (.number literal) = none := by
  cases stack with
  | nil => rfl
  | cons o stack => cases o <;> rfl

theorem exists_next_of_number {literal : List Char} (h : r.step (.number literal) = some r') :
    ∃ stack v, r' = ⟨stack, .next v⟩ := by
  obtain ⟨stack, expected⟩ := r
  cases expected with
  | value | firstElement =>
      cases h
      exact ⟨_, _, rfl⟩
  | next v =>
      rw [step_next, stepNext_number] at h
      cases h
  | _ => cases h

/-- A number is a whole value, and no number follows a value. -/
theorem not_number_of_steps {literal : List Char} {ts : List Token} (hstep : r.step (.number literal) = some r')
    (hsteps : (r'.steps ts).isSome) : ∀ literal', .number literal' ∉ ts.head? := by
  intro literal' hhead
  obtain ⟨stack, v, rfl⟩ := exists_next_of_number hstep
  cases ts with
  | nil => cases hhead
  | cons u ts =>
      cases hhead
      rw [steps, step_next, stepNext_number] at hsteps
      cases hsteps

theorem run_token {c : Char} {s rest : List Char} (hblank : isBlank c = false)
    (hscan : scanToken (c :: s) = some (t, rest)) : r.run (c :: s) = (r.step t).bind fun r => r.run rest := by
  rw [run, if_neg (Bool.eq_false_iff.mp hblank)]
  split
  · rename_i hnone
    rw [hscan] at hnone
    cases hnone
  · rename_i t' rest' hsome
    rw [hscan] at hsome
    cases hsome
    cases r.step t <;> rfl

theorem run_of_steps {s : List Char} {ts : List Token} (h : Spaced s ts) (hsteps : r.steps ts = some r') :
    r.run s = r'.finish? := by
  induction h generalizing r with
  | nil =>
      cases hsteps
      rw [run]
  | blank hblank h ih =>
      rw [run, if_pos hblank]
      exact ih hsteps
  | @token t s ts ht h ih =>
      rw [steps] at hsteps
      split at hsteps
      · rename_i next hstep
        obtain ⟨c, tail, htext, hblank, -⟩ := text_cons ht
        have hscan : scanToken (t.text ++ s) = some (t, s) := by
          apply scanToken_text ht
          rintro literal rfl
          exact endsNumber_of_spaced h (not_number_of_steps hstep (hsteps ▸ rfl))
        rw [htext, List.cons_append] at hscan ⊢
        rw [run_token hblank hscan, hstep]
        exact ih hsteps
      · cases hsteps

theorem exists_steps_of_run {s : List Char} {v : Value} (h : r.run s = some v) :
    ∃ ts r', Spaced s ts ∧ r.steps ts = some r' ∧ r'.finish? = some v := by
  fun_induction run r s with
  | case1 r => exact ⟨[], r, .nil, rfl, h⟩
  | case2 r c rest hblank ih =>
      obtain ⟨ts, r', hspaced, hsteps, hfinish⟩ := ih h
      exact ⟨ts, r', .blank hblank hspaced, hsteps, hfinish⟩
  | case3 => cases h
  | case4 r c rest hblank t rest' hscan next hstep ih =>
      obtain ⟨ts, r', hspaced, hsteps, hfinish⟩ := ih h
      obtain ⟨hwf, htext⟩ := scanToken_sound hscan
      refine ⟨t :: ts, r', ?_, ?_, hfinish⟩
      · rw [htext]
        exact .token hwf hspaced
      · rw [steps, hstep]
        exact hsteps
  | case5 => cases h

theorem tokens_of_finish {v : Value} (h : r.finish? = some v) : r.tokens = v.tokens := by
  unfold finish? at h
  split at h
  · rename_i v' hstack hexpected
    cases h
    rw [tokens, hstack, hexpected]
    rfl
  · cases h

end Reader

/-- The texts that are read as a value are its JSON texts. -/
theorem read?_eq_some_iff {s : String} {v : Value} : read? s = some v ↔ Writes s.toList v := by
  constructor
  · intro h
    obtain ⟨ts, r', hspaced, hsteps, hfinish⟩ := Reader.exists_steps_of_run h
    have htokens : v.tokens = ts := by
      rw [← Reader.tokens_of_finish hfinish, Reader.tokens_of_steps hsteps]
      rfl
    rw [Writes, htokens]
    exact hspaced
  · intro h
    exact Reader.run_of_steps h (Reader.steps_tokens [] v)

end PacketHost.Json
