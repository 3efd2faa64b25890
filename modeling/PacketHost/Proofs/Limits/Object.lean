import PacketHost.Proofs.Json.Printing
import PacketHost.Proofs.Limits.Draft

/-!
# Limits from an object

Which limits a JSON object gives depends on what it gives for each field and on nothing else: neither on blanks, nor on
how its names are spelled, nor on the order of its members, nor on members of other names (`parse_object`). A text that
is no JSON gives none (`writes_of_parse`).
-/

namespace PacketHost

namespace Json

/-! ## The members of an object that is read -/

theorem Writes.content {s : List Char} {raw : List (List Char × Value)} (h : Writes s (.object raw)) :
    ∀ m ∈ raw, IsContent m.1 := fun m hm => (Value.wellFormed_object.mp h.wellFormed m hm).1

theorem Writes.numberWellFormed {s : List Char} {raw : List (List Char × Value)} (h : Writes s (.object raw)) :
    ∀ m ∈ raw, Limits.NumberWellFormed m.2 := fun m hm _ hliteral =>
  Value.wellFormed_number.mp (hliteral ▸ (Value.wellFormed_object.mp h.wellFormed m hm).2)

theorem SpellsNames.exists_mem {raw members : List (List Char × Value)} (h : SpellsNames raw members) :
    ∀ m ∈ members, ∃ m' ∈ raw, m'.2 = m.2 := by
  induction h with
  | nil => exact nofun
  | cons hname h ih =>
      refine List.forall_mem_cons.mpr ⟨⟨_, List.mem_cons_self, rfl⟩, fun m hm => ?_⟩
      obtain ⟨m', hm', heq⟩ := ih m hm
      exact ⟨m', List.mem_cons_of_mem _ hm', heq⟩

end Json

namespace Limits

variable {text : String} {members : List (List Char × Json.Value)} {l : Limits}

/-- Each field is given at most once, and with a value of its type. -/
def Acceptable (members : List (List Char × Json.Value)) : Prop :=
  ∀ f : Field, (f.given members).length ≤ 1 ∧ ∀ v ∈ f.given members, f.Admits v

/-- The values of limits are the given ones, and the usual ones where none is given. -/
def Follows (l : Limits) (members : List (List Char × Json.Value)) : Prop :=
  ∀ f : Field, l.value f = (f.given members).head?.getD (({} : Limits).value f)

/-- The members whose names are those of fields. -/
def known (members : List (List Char × Json.Value)) : List (List Char × Json.Value) :=
  members.filter fun m => (Field.ofName? m.1).isSome

/-! ## Before validation -/

theorem eq_toList_iff {vs : List Json.Value} {o : Option Json.Value} :
    vs = o.toList ↔ vs.length ≤ 1 ∧ vs.head? = o := by
  match vs, o with
  | [], none => simp
  | [], some _ => simp
  | [v], none => simp
  | [v], some w => simp
  | v :: w :: vs, none => simp
  | v :: w :: vs, some _ => simp

theorem exists_draft (h : Acceptable members) : ∃ d : Draft, ∀ f : Field, d.value? f = (f.given members).head? :=
  Draft.exists_value? fun f _ hhead => (h f).2 _ (List.mem_of_mem_head? hhead)

/-- There are limits that follow acceptable members. -/
theorem exists_follows (h : Acceptable members) : ∃ l : Limits, l.Follows members := by
  obtain ⟨d, hd⟩ := exists_draft h
  exact ⟨d.limits, fun f => by rw [Draft.value_limits, hd]⟩

theorem ofValue?_object {raw : List (List Char × Json.Value)} (hnames : Json.SpellsNames raw members)
    (hwf : ∀ m ∈ members, NumberWellFormed m.2) :
    ofValue? (.object raw) = some l ↔ Acceptable members ∧ l.Follows members := by
  have hset (d : Draft) : ({} : Draft).setMembers raw = some d ↔ ∀ f : Field,
      f.given members = (d.value? f).toList ∧ ∀ v ∈ f.given members, f.Admits v := by
    rw [Draft.setMembers_eq_some_iff hnames hwf]
    refine forall_congr' fun f => ?_
    have hempty : ({} : Draft).value? f = none := by cases f <;> rfl
    rw [hempty, Option.toList_none, List.nil_append]
  constructor
  · intro h
    obtain ⟨d, hd, rfl⟩ := Option.map_eq_some_iff.mp h
    have hall := (hset d).mp hd
    refine ⟨fun f => ⟨(eq_toList_iff.mp (hall f).1).1, (hall f).2⟩, fun f => ?_⟩
    rw [Draft.value_limits, (eq_toList_iff.mp (hall f).1).2]
  · rintro ⟨hacc, hfollows⟩
    obtain ⟨d, hd⟩ := exists_draft hacc
    have hread := (hset d).mpr fun f => ⟨eq_toList_iff.mpr ⟨(hacc f).1, (hd f).symm⟩, (hacc f).2⟩
    refine Option.map_eq_some_iff.mpr ⟨d, hread, ext_value fun f => ?_⟩
    rw [Draft.value_limits, hd, hfollows f]

theorem read?_of_object (h : Json.WritesObject text.toList members) :
    (Json.read? text).bind ofValue? = some l ↔ Acceptable members ∧ l.Follows members := by
  obtain ⟨raw, hwrites, hnames⟩ := h
  rw [Json.read?_eq_some_iff.mpr hwrites, Option.bind_some]
  refine ofValue?_object hnames fun m hm => ?_
  obtain ⟨m', hm', heq⟩ := hnames.exists_mem m hm
  exact heq ▸ hwrites.numberWellFormed m' hm'

theorem Follows.unique {l' : Limits} (h : l.Follows members) (h' : l'.Follows members) : l = l' :=
  ext_value fun f => (h f).trans (h' f).symm

/-- The size is zero exactly if it is given as zero. -/
theorem Follows.size_eq_zero_iff (h : l.Follows members) (hacc : Acceptable members) :
    l.maxPacketSize = 0 ↔ Json.Value.ofNat 0 ∈ Field.maxPacketSize.given members := by
  have hsize : Json.Value.ofNat l.maxPacketSize = (Field.maxPacketSize.given members).head?.getD (.ofNat Word.largest) :=
    h .maxPacketSize
  match hgiven : Field.maxPacketSize.given members with
  | [] =>
      rw [hgiven] at hsize
      have hlargest : l.maxPacketSize = Word.largest := ofNat_injective hsize
      exact iff_of_false (by rw [hlargest]; decide) List.not_mem_nil
  | [v] =>
      rw [hgiven] at hsize
      have hv : Json.Value.ofNat l.maxPacketSize = v := hsize
      rw [List.mem_singleton, ← hv, ofNat_injective.eq_iff, eq_comm]
  | v :: w :: vs =>
      have hlen := (hacc .maxPacketSize).1
      rw [hgiven] at hlen
      simp at hlen

/-! ## Validation -/

theorem parse_of_none (h : (Json.read? text).bind ofValue? = none) : parse text = .error .malformed := by
  unfold parse
  rw [h]

theorem parse_of_some (h : (Json.read? text).bind ofValue? = some l) :
    parse text = if l.maxPacketSize = 0 then .error .zeroSize else .ok l := by
  unfold parse
  rw [h]
  by_cases hzero : l.maxPacketSize = 0
  · rw [if_pos hzero]
    simp [validate, isValid, hzero, bind, Except.bind]
  · rw [if_neg hzero]
    simp [validate, isValid, Nat.pos_of_ne_zero hzero, bind, Except.bind, pure, Except.pure]

theorem parse_eq_ok_iff : parse text = .ok l ↔ (Json.read? text).bind ofValue? = some l ∧ l.maxPacketSize ≠ 0 := by
  cases hread : (Json.read? text).bind ofValue? with
  | none => exact iff_of_false (by rw [parse_of_none hread]; exact nofun) fun h => nomatch h.1
  | some l' =>
      rw [parse_of_some hread, Option.some.injEq]
      by_cases hzero : l'.maxPacketSize = 0
      · rw [if_pos hzero]
        exact iff_of_false nofun fun h => h.2 (h.1 ▸ hzero)
      · rw [if_neg hzero, Except.ok.injEq]
        exact (and_iff_left_of_imp fun h => h ▸ hzero).symm

theorem parse_eq_zeroSize_iff :
    parse text = .error .zeroSize ↔ ∃ l, (Json.read? text).bind ofValue? = some l ∧ l.maxPacketSize = 0 := by
  cases hread : (Json.read? text).bind ofValue? with
  | none => exact iff_of_false (by rw [parse_of_none hread]; exact nofun) fun h => nomatch h
  | some l =>
      rw [parse_of_some hread]
      by_cases hzero : l.maxPacketSize = 0
      · rw [if_pos hzero]
        exact iff_of_true rfl ⟨l, rfl, hzero⟩
      · rw [if_neg hzero]
        refine iff_of_false nofun ?_
        rintro ⟨l', hl, hzero'⟩
        cases hl
        exact hzero hzero'

theorem isValid_of_parse (h : parse text = .ok l) : l.isValid = true :=
  decide_eq_true (Nat.pos_of_ne_zero (parse_eq_ok_iff.mp h).2)

/-- The two problems are reported as different errors. -/
theorem mapError_parse_iff (text : String) (p : Problem) :
    (parse text).mapError Problem.error = .error p.error ↔ parse text = .error p := by
  cases parse text with
  | ok l => exact iff_of_false nofun nofun
  | error q => cases p <;> cases q <;> simp [Except.mapError, Problem.error, Problem.text]

/-! ## Objects -/

theorem parse_eq_ok_iff_of_object (h : Json.WritesObject text.toList members) :
    parse text = .ok l ↔ Acceptable members ∧ .ofNat 0 ∉ Field.maxPacketSize.given members ∧ l.Follows members := by
  rw [parse_eq_ok_iff, read?_of_object h]
  constructor
  · rintro ⟨⟨hacc, hfollows⟩, hsize⟩
    exact ⟨hacc, mt (hfollows.size_eq_zero_iff hacc).mpr hsize, hfollows⟩
  · rintro ⟨hacc, hsize, hfollows⟩
    exact ⟨⟨hacc, hfollows⟩, mt (hfollows.size_eq_zero_iff hacc).mp hsize⟩

theorem parse_eq_zeroSize_iff_of_object (h : Json.WritesObject text.toList members) :
    parse text = .error .zeroSize ↔ Acceptable members ∧ .ofNat 0 ∈ Field.maxPacketSize.given members := by
  rw [parse_eq_zeroSize_iff]
  constructor
  · rintro ⟨l, hread, hzero⟩
    obtain ⟨hacc, hfollows⟩ := (read?_of_object h).mp hread
    exact ⟨hacc, (hfollows.size_eq_zero_iff hacc).mp hzero⟩
  · rintro ⟨hacc, hzero⟩
    obtain ⟨l, hfollows⟩ := exists_follows hacc
    exact ⟨l, (read?_of_object h).mpr ⟨hacc, hfollows⟩, (hfollows.size_eq_zero_iff hacc).mpr hzero⟩

/-! ## Other members and another order -/

theorem given_known (f : Field) (members : List (List Char × Json.Value)) : f.given (known members) = f.given members := by
  unfold Field.given known
  rw [List.filter_filter]
  refine congrArg _ (List.filter_congr fun m _ => ?_)
  by_cases hname : m.1 = f.name.toList
  · simp [hname, Field.ofName?_name]
  · simp [hname]

theorem given_perm {members' : List (List Char × Json.Value)} (h : (known members').Perm (known members)) (f : Field) :
    (f.given members').Perm (f.given members) := by
  rw [← given_known f members', ← given_known f members]
  exact (h.filter _).map _

theorem Acceptable.of_perm {members' : List (List Char × Json.Value)} (h : Acceptable members)
    (hperm : (known members').Perm (known members)) : Acceptable members' := fun f =>
  ⟨(given_perm hperm f).length_eq ▸ (h f).1, fun v hv => (h f).2 v ((given_perm hperm f).mem_iff.mp hv)⟩

/-- At most one value has only one order. -/
theorem Acceptable.given_eq {members' : List (List Char × Json.Value)} (h : Acceptable members)
    (hperm : (known members').Perm (known members)) (f : Field) : f.given members' = f.given members := by
  have hlen := (h f).1
  have hgiven := given_perm hperm f
  match hvs : f.given members with
  | [] => exact List.perm_nil.mp (hvs ▸ hgiven)
  | [v] => exact List.perm_singleton.mp (hvs ▸ hgiven)
  | v :: w :: vs =>
      rw [hvs] at hlen
      simp at hlen

theorem parse_eq_of_perm {text' : String} {members' : List (List Char × Json.Value)}
    (h : Json.WritesObject text.toList members) (h' : Json.WritesObject text'.toList members')
    (hperm : (known members').Perm (known members)) : parse text' = parse text := by
  have hread : (Json.read? text').bind ofValue? = (Json.read? text).bind ofValue? := by
    refine Option.ext fun l => ?_
    rw [read?_of_object h', read?_of_object h]
    have hacc : Acceptable members' ↔ Acceptable members :=
      ⟨fun hacc => hacc.of_perm hperm.symm, fun hacc => hacc.of_perm hperm⟩
    rw [hacc]
    refine and_congr_right fun hacc => forall_congr' fun f => ?_
    rw [hacc.given_eq hperm f]
  unfold parse
  rw [hread]

/-! ## Texts -/

theorem Draft.exists_spellsNames {raw : List (List Char × Json.Value)} (hcontent : ∀ m ∈ raw, Json.IsContent m.1)
    {d d' : Draft} (h : d.setMembers raw = some d') : ∃ members, Json.SpellsNames raw members := by
  fun_induction Draft.setMembers d raw with
  | case1 => exact ⟨[], .nil⟩
  | case3 d content v raw name hname hunknown ih =>
      have hspells := (Json.decodeString?_eq_some_iff (hcontent _ List.mem_cons_self)).mp hname
      obtain ⟨members, hmembers⟩ := ih (fun m hm => hcontent m (List.mem_cons_of_mem _ hm)) h
      exact ⟨(name, v) :: members, .cons hspells hmembers⟩
  | case4 d content v raw name hname field hfield next hset ih =>
      have hspells := (Json.decodeString?_eq_some_iff (hcontent _ List.mem_cons_self)).mp hname
      obtain ⟨members, hmembers⟩ := ih (fun m hm => hcontent m (List.mem_cons_of_mem _ hm)) h
      exact ⟨(name, v) :: members, .cons hspells hmembers⟩
  | _ => cases h

/-- Limits are read from JSON only, and there only from objects and arrays. -/
theorem writes_of_parse (h : parse text = .ok l) :
    (∃ members, Json.WritesObject text.toList members) ∨ ∃ elements, Json.Writes text.toList (.array elements) := by
  obtain ⟨v, hread, hv⟩ := Option.bind_eq_some_iff.mp (parse_eq_ok_iff.mp h).1
  have hwrites := Json.read?_eq_some_iff.mp hread
  cases v with
  | object raw =>
      obtain ⟨d, hd, -⟩ := Option.map_eq_some_iff.mp hv
      obtain ⟨members, hmembers⟩ := Draft.exists_spellsNames hwrites.content hd
      exact .inl ⟨members, raw, hwrites, hmembers⟩
  | array elements => exact .inr ⟨elements, hwrites⟩
  | _ => cases hv

/-- Limits are read from an object exactly if it gives each field at most once, with a value of its type, and not a size
of zero. They are then the given values and the usual ones, so neither the order of the members nor members of unknown
names matter. Limits that were read are valid. -/
theorem parse_object (h : Json.WritesObject text.toList members) :
    (∀ l, parse text = .ok l ↔
      Acceptable members ∧ .ofNat 0 ∉ Field.maxPacketSize.given members ∧ l.Follows members) ∧
    ((∃ l, parse text = .ok l) ↔ Acceptable members ∧ .ofNat 0 ∉ Field.maxPacketSize.given members) ∧
    ((parse text).mapError Problem.error = .error (.limits "max_packet_size must be nonzero") ↔
      Acceptable members ∧ .ofNat 0 ∈ Field.maxPacketSize.given members) ∧
    (∀ text' members', Json.WritesObject text'.toList members' → (known members').Perm (known members) →
      parse text' = parse text) ∧
    ∀ text' l, parse text' = .ok l → l.isValid = true := by
  refine ⟨fun l => parse_eq_ok_iff_of_object h, ⟨?_, ?_⟩, ?_, fun text' members' h' => parse_eq_of_perm h h',
    fun text' l => isValid_of_parse⟩
  · rintro ⟨l, hl⟩
    obtain ⟨hacc, hsize, -⟩ := (parse_eq_ok_iff_of_object h).mp hl
    exact ⟨hacc, hsize⟩
  · rintro ⟨hacc, hsize⟩
    obtain ⟨l, hfollows⟩ := exists_follows hacc
    exact ⟨l, (parse_eq_ok_iff_of_object h).mpr ⟨hacc, hsize, hfollows⟩⟩
  · rw [← parse_eq_zeroSize_iff_of_object h]
    exact mapError_parse_iff text .zeroSize

/-- A name with an escape, between members of the same unknown name, one of which holds the name of a field. -/
theorem parse_object_escaped :
    parse "\x7b \"x\": [\x7b\"max_headers\": -1\x7d], \"\\u006dax_headers\":\t3, \"x\": 1.5E+9 \x7d" =
      .ok { maxHeaders := 3 } := by
  have hx : Json.Spells ['x'] ['x'] := Json.spells_self rfl
  have hname : Json.Spells ('\\' :: 'u' :: '0' :: '0' :: '6' :: 'd' :: "ax_headers".toList) (_ :: "ax_headers".toList) :=
    .hexadecimal rfl (.inl (by decide)) (Json.spells_self rfl)
  have hnames : Json.SpellsNames [(['x'], .array [.object [("max_headers".toList, .number ['-', '1'])]]), (_, .ofNat 3),
      (['x'], .number "1.5E+9".toList)] _ := .cons hx (.cons hname (.cons hx .nil))
  refine ((parse_object ⟨_, Json.read?_eq_some_iff.mp (by cbv), hnames⟩).1 _).mpr
    ⟨fun f => ?_, List.not_mem_nil, fun f => ?_⟩
  · cases f with
    | maxHeaders => exact ⟨Nat.le_refl 1, List.forall_mem_singleton.mpr (.maxHeaders (by decide))⟩
    | _ => exact ⟨Nat.zero_le 1, fun _ hv => absurd hv List.not_mem_nil⟩
  · cases f <;> rfl

end Limits

end PacketHost
