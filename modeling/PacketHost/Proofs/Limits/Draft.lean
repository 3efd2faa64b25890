import PacketHost.Limits
import PacketHost.Proofs.Json.Decimal
import PacketHost.Proofs.Json.Spelling
import PacketHost.Proofs.Word

/-!
# Collecting the values of fields

A draft holds at most one value for each field, and each of them is a value of its field's type. Reading the members of
an object succeeds exactly if no field is given twice or a value of another type, and the draft then holds what was
given (`setMembers_eq_some_iff`).
-/

namespace PacketHost.Limits

namespace Field

/-- The values of a field: words that are written as whole numbers, and truth values. -/
inductive Admits : Field → Json.Value → Prop where
  | maxPacketSize {n : Nat} (h : n ≤ 2 ^ 64 - 1) : Admits .maxPacketSize (.ofNat n)
  | maxHeaders {n : Nat} (h : n ≤ 2 ^ 64 - 1) : Admits .maxHeaders (.ofNat n)
  | rejectEmptyKeys (b : Bool) : Admits .rejectEmptyKeys (.bool b)

/-- The values that members give for a field, in their order. -/
def given (f : Field) (members : List (List Char × Json.Value)) : List Json.Value :=
  (members.filter fun m => m.1 = f.name.toList).map Prod.snd

theorem ofName?_name (f : Field) : ofName? f.name.toList = some f := by
  cases f <;> rfl

theorem ofName?_eq_some_iff {name : List Char} {f : Field} : ofName? name = some f ↔ f.name.toList = name := by
  constructor
  · intro h
    have hfound := List.find?_some h
    exact of_decide_eq_true hfound
  · rintro rfl
    exact ofName?_name f

theorem given_cons_self {name : List Char} {f : Field} (h : ofName? name = some f) (v : Json.Value)
    (members : List (List Char × Json.Value)) : f.given ((name, v) :: members) = v :: f.given members := by
  unfold given
  rw [List.filter_cons_of_pos (by simp [ofName?_eq_some_iff.mp h]), List.map_cons]

theorem given_cons_of_ne {name : List Char} {f : Field} (h : ofName? name ≠ some f) (v : Json.Value)
    (members : List (List Char × Json.Value)) : f.given ((name, v) :: members) = f.given members := by
  unfold given
  rw [List.filter_cons_of_neg]
  rw [decide_eq_true_eq]
  exact fun hname => h (ofName?_eq_some_iff.mpr hname.symm)

/-- What a value is read as for a field, again as a value. -/
def read? : Field → Json.Value → Option Json.Value
  | .maxPacketSize, v => (word? v).map .ofNat
  | .maxHeaders, v => (word? v).map .ofNat
  | .rejectEmptyKeys, v => (flag? v).map .bool

end Field

/-! ## Single values -/

/-- A number is written as the grammar demands. -/
def NumberWellFormed (v : Json.Value) : Prop := ∀ literal, v = .number literal → Json.IsNumber literal

theorem word?_eq_some {v : Json.Value} {n : Nat} : word? v = some n ↔ v.natural? = some n ∧ n ≤ 2 ^ 64 - 1 := by
  simp only [word?, Option.bind_eq_bind, Option.bind_eq_some_iff, Option.ite_none_right_eq_some, Option.some.injEq,
    Word.lt_limit_iff]
  constructor
  · rintro ⟨n, hn, hle, rfl⟩
    exact ⟨hn, hle⟩
  · rintro ⟨hn, hle⟩
    exact ⟨n, hn, hle, rfl⟩

theorem natural?_iff {v : Json.Value} (hv : NumberWellFormed v) {n : Nat} : v.natural? = some n ↔ v = .ofNat n := by
  cases v with
  | number literal =>
      rw [Json.natural?_eq_some_iff (hv literal rfl), Json.Value.ofNat, Json.Value.number.injEq]
  | _ => exact ⟨nofun, nofun⟩

theorem flag?_eq_some_iff {v : Json.Value} {b : Bool} : flag? v = some b ↔ v = .bool b := by
  cases v <;> simp [flag?]

theorem Field.admits_of_read? {f : Field} {v u : Json.Value} (h : f.read? v = some u) : f.Admits u := by
  cases f with
  | maxPacketSize =>
      obtain ⟨n, hn, rfl⟩ := Option.map_eq_some_iff.mp h
      exact .maxPacketSize ((word?_eq_some.mp hn).2)
  | maxHeaders =>
      obtain ⟨n, hn, rfl⟩ := Option.map_eq_some_iff.mp h
      exact .maxHeaders ((word?_eq_some.mp hn).2)
  | rejectEmptyKeys =>
      obtain ⟨b, hb, rfl⟩ := Option.map_eq_some_iff.mp h
      exact .rejectEmptyKeys b

/-- A value of the field's type is read as it is, and no other value is read. -/
theorem Field.read?_eq_some_iff {f : Field} {v u : Json.Value} (hv : NumberWellFormed v) :
    f.read? v = some u ↔ f.Admits v ∧ u = v := by
  constructor
  · intro h
    have hadmits := admits_of_read? h
    cases f with
    | maxPacketSize | maxHeaders =>
        obtain ⟨n, hn, rfl⟩ := Option.map_eq_some_iff.mp h
        have hread := ((natural?_iff hv).mp (word?_eq_some.mp hn).1).symm
        exact ⟨hread ▸ hadmits, hread⟩
    | rejectEmptyKeys =>
        obtain ⟨b, hb, rfl⟩ := Option.map_eq_some_iff.mp h
        have hread := (flag?_eq_some_iff.mp hb).symm
        exact ⟨hread ▸ hadmits, hread⟩
  · rintro ⟨h, rfl⟩
    cases h with
    | maxPacketSize h | maxHeaders h =>
        exact Option.map_eq_some_iff.mpr ⟨_, word?_eq_some.mpr ⟨(natural?_iff hv).mpr rfl, h⟩, rfl⟩
    | rejectEmptyKeys b => rfl

theorem ofNat_injective : Function.Injective Json.Value.ofNat := fun _ _ h =>
  Json.decimal_injective (Json.Value.number.inj h)

/-! ## Drafts -/

namespace Draft

variable {d d' : Draft} {f : Field} {v u : Json.Value}

/-- The value that a draft holds for a field. -/
def value? (d : Draft) : Field → Option Json.Value
  | .maxPacketSize => d.maxPacketSize.map .ofNat
  | .maxHeaders => d.maxHeaders.map .ofNat
  | .rejectEmptyKeys => d.rejectEmptyKeys.map .bool

theorem ext_value? (h : ∀ f, d.value? f = d'.value? f) : d = d' := by
  obtain ⟨size, headers, flag⟩ := d
  obtain ⟨size', headers', flag'⟩ := d'
  have hsize : size = size' := Option.map_injective ofNat_injective (h .maxPacketSize)
  have hheaders : headers = headers' := Option.map_injective ofNat_injective (h .maxHeaders)
  have hflag : flag = flag' := Option.map_injective (fun _ _ heq => Json.Value.bool.inj heq) (h .rejectEmptyKeys)
  rw [hsize, hheaders, hflag]

/-- A place of a draft that is filled at most once, with what the value is read as. -/
theorem set_place {α : Type} {toValue : α → Json.Value} {held read : Option α} {put : α → Draft}
    (hset : d.set f v = if held.isSome then none else read.map put) (hheld : d.value? f = held.map toValue)
    (hread : f.read? v = read.map toValue) (hput : ∀ a, (put a).value? f = some (toValue a))
    (hothers : ∀ a, ∀ g ≠ f, (put a).value? g = d.value? g) :
    (d.set f v = none ∧ (d.value? f ≠ none ∨ f.read? v = none)) ∨
    ∃ u d', d.value? f = none ∧ f.read? v = some u ∧ d.set f v = some d' ∧ d'.value? f = some u ∧
      ∀ g ≠ f, d'.value? g = d.value? g := by
  rw [hset, hheld, hread]
  cases held with
  | some a => exact .inl ⟨rfl, .inl nofun⟩
  | none =>
      cases read with
      | none => exact .inl ⟨rfl, .inr rfl⟩
      | some a => exact .inr ⟨toValue a, put a, rfl, rfl, rfl, hput a, hothers a⟩

/-- Setting a field of a draft fails if the draft holds a value for it or the value is not read; otherwise this field
holds what was read, and the others are as they were. -/
theorem set_cases (d : Draft) (f : Field) (v : Json.Value) :
    (d.set f v = none ∧ (d.value? f ≠ none ∨ f.read? v = none)) ∨
    ∃ u d', d.value? f = none ∧ f.read? v = some u ∧ d.set f v = some d' ∧ d'.value? f = some u ∧
      ∀ g ≠ f, d'.value? g = d.value? g := by
  cases f with
  | maxPacketSize =>
      refine set_place rfl rfl rfl (fun _ => rfl) fun _ g hg => ?_
      cases g with
      | maxPacketSize => exact absurd rfl hg
      | _ => rfl
  | maxHeaders =>
      refine set_place rfl rfl rfl (fun _ => rfl) fun _ g hg => ?_
      cases g with
      | maxHeaders => exact absurd rfl hg
      | _ => rfl
  | rejectEmptyKeys =>
      refine set_place rfl rfl rfl (fun _ => rfl) fun _ g hg => ?_
      cases g with
      | rejectEmptyKeys => exact absurd rfl hg
      | _ => rfl

/-! ## Members -/

/-- Each name is decoded on its own, and members of unknown names leave the draft as it is. -/
theorem setMembers_cons {content name : List Char} (h : Json.Spells content name) (d : Draft) (v : Json.Value)
    (raw : List (List Char × Json.Value)) :
    d.setMembers ((content, v) :: raw) =
      match Field.ofName? name with
      | none => d.setMembers raw
      | some f => (d.set f v).bind fun d => d.setMembers raw := by
  rw [setMembers, Json.decodeString?_of_spells h]
  simp only
  cases Field.ofName? name with
  | none => rfl
  | some f =>
      simp only
      cases d.set f v <;> rfl

/-- What a draft holds after members were read: the value from before or the only one that was given. -/
theorem setMembers_eq_some_iff {raw members : List (List Char × Json.Value)} (hnames : Json.SpellsNames raw members)
    (hwf : ∀ m ∈ members, NumberWellFormed m.2) {d d' : Draft} :
    d.setMembers raw = some d' ↔
      ∀ f : Field, (d.value? f).toList ++ f.given members = (d'.value? f).toList ∧
        ∀ v ∈ f.given members, f.Admits v := by
  induction hnames generalizing d with
  | nil =>
      simp only [setMembers, Option.some.injEq]
      constructor
      · rintro rfl f
        exact ⟨List.append_nil _, nofun⟩
      · intro h
        refine ext_value? fun f => Option.ext fun v => ?_
        rw [← Option.mem_toList, ← Option.mem_toList, ← (h f).1]
        exact iff_of_eq (congrArg (v ∈ ·) (List.append_nil _).symm)
  | @cons content name v raw members hname hnames ih =>
      have hv : NumberWellFormed v := hwf _ List.mem_cons_self
      have ih := fun {d : Draft} => ih (d := d) fun m hm => hwf m (List.mem_cons_of_mem _ hm)
      rw [setMembers_cons hname]
      cases hfield : Field.ofName? name with
      | none =>
          have hgiven : ∀ f : Field, f.given ((name, v) :: members) = f.given members :=
            fun f => Field.given_cons_of_ne (by rw [hfield]; exact nofun) v members
          simp only [hgiven]
          exact ih
      | some f =>
          have hself := Field.given_cons_self hfield v members
          have hother : ∀ g ≠ f, g.given ((name, v) :: members) = g.given members := fun g hg =>
            Field.given_cons_of_ne (by rw [hfield]; exact fun heq => hg (Option.some.inj heq).symm) v members
          rcases set_cases d f v with ⟨hnone, hbad⟩ | ⟨u, d₁, hempty, hread, hset, hnew, hkept⟩
          · refine iff_of_false (by simp [hnone]) fun h => ?_
            obtain ⟨hheld, hadmits⟩ := h f
            rw [hself] at hheld hadmits
            rcases hbad with hfull | hunread
            · have hlen := congrArg List.length hheld
              cases hd : d.value? f with
              | none => exact hfull hd
              | some w => cases hd' : d'.value? f <;> simp [hd, hd'] at hlen
            · have hread := (Field.read?_eq_some_iff hv).mpr ⟨hadmits v List.mem_cons_self, rfl⟩
              rw [hunread] at hread
              cases hread
          · obtain ⟨hadmits, rfl⟩ := (Field.read?_eq_some_iff hv).mp hread
            simp only [hset, Option.bind_some]
            rw [ih]
            refine forall_congr' fun g => ?_
            by_cases hg : g = f
            · subst hg
              rw [hnew, hempty, hself, List.forall_mem_cons]
              exact and_congr_right fun _ => (and_iff_right hadmits).symm
            · rw [hkept g hg, hother g hg]

/-! ## Drafts of admitted values -/

/-- A draft holds only values of the types of their fields. -/
def Sound (d : Draft) : Prop := ∀ f u, d.value? f = some u → f.Admits u

theorem sound_empty : Sound {} := by
  intro f u h
  cases f <;> cases h

theorem Sound.set (hd : d.Sound) (h : d.set f v = some d') : d'.Sound := by
  rcases set_cases d f v with ⟨hnone, -⟩ | ⟨u, d₁, -, hread, hset, hnew, hkept⟩
  · rw [hnone] at h
    cases h
  · rw [hset] at h
    cases h
    intro g w hw
    by_cases hg : g = f
    · subst hg
      rw [hnew] at hw
      cases hw
      exact Field.admits_of_read? hread
    · rw [hkept g hg] at hw
      exact hd g w hw

theorem Sound.setMembers {raw : List (List Char × Json.Value)} (hd : d.Sound) (h : d.setMembers raw = some d') :
    d'.Sound := by
  fun_induction Draft.setMembers d raw with
  | case1 d =>
      cases h
      exact hd
  | case2 => cases h
  | case3 d content v members name hname hunknown ih => exact ih hd h
  | case4 d content v members name hname field hfield next hset ih => exact ih (hd.set hset) h
  | case5 => cases h

theorem Sound.setElements {fields : List Field} {vs : List Json.Value} (hd : d.Sound)
    (h : d.setElements fields vs = some d') : d'.Sound := by
  fun_induction Draft.setElements d fields vs with
  | case1 d =>
      cases h
      exact hd
  | case2 => cases h
  | case3 d field fields v vs next hset ih => exact ih (hd.set hset) h
  | case4 => cases h

/-- A value that has a type, if it is there, comes from an optional member of the type. -/
theorem exists_map_eq {α : Type} {toValue : α → Json.Value} {held : Option Json.Value}
    (h : ∀ u, held = some u → ∃ a, toValue a = u) : ∃ o : Option α, o.map toValue = held := by
  cases held with
  | none => exact ⟨none, rfl⟩
  | some u =>
      obtain ⟨a, rfl⟩ := h u rfl
      exact ⟨some a, rfl⟩

/-- Any values of the right types make up a draft. -/
theorem exists_value? {held : Field → Option Json.Value} (h : ∀ f u, held f = some u → f.Admits u) :
    ∃ d : Draft, ∀ f, d.value? f = held f := by
  obtain ⟨size, hsize⟩ : ∃ n : Option Nat, n.map .ofNat = held .maxPacketSize := exists_map_eq fun u hu => by
    cases h _ u hu with
    | @maxPacketSize n _ => exact ⟨n, rfl⟩
  obtain ⟨headers, hheaders⟩ : ∃ n : Option Nat, n.map .ofNat = held .maxHeaders := exists_map_eq fun u hu => by
    cases h _ u hu with
    | @maxHeaders n _ => exact ⟨n, rfl⟩
  obtain ⟨flag, hflag⟩ : ∃ b : Option Bool, b.map .bool = held .rejectEmptyKeys := exists_map_eq fun u hu => by
    cases h _ u hu with
    | rejectEmptyKeys b => exact ⟨b, rfl⟩
  refine ⟨⟨size, headers, flag⟩, fun f => ?_⟩
  cases f with
  | maxPacketSize => exact hsize
  | maxHeaders => exact hheaders
  | rejectEmptyKeys => exact hflag

/-- The limits of a draft are the values that it holds, and the usual ones elsewhere. -/
theorem value_limits (d : Draft) (f : Field) : d.limits.value f = (d.value? f).getD (({} : Limits).value f) := by
  obtain ⟨size, headers, flag⟩ := d
  cases f with
  | maxPacketSize => cases size <;> rfl
  | maxHeaders => cases headers <;> rfl
  | rejectEmptyKeys => cases flag <;> rfl

end Draft

theorem ext_value {l l' : Limits} (h : ∀ f, l.value f = l'.value f) : l = l' := by
  obtain ⟨size, headers, flag⟩ := l
  obtain ⟨size', headers', flag'⟩ := l'
  have hsize : size = size' := ofNat_injective (h .maxPacketSize)
  have hheaders : headers = headers' := ofNat_injective (h .maxHeaders)
  have hflag : flag = flag' := Json.Value.bool.inj (h .rejectEmptyKeys)
  rw [hsize, hheaders, hflag]

theorem usual_admitted (f : Field) : f.Admits (({} : Limits).value f) := by
  cases f with
  | maxPacketSize => exact .maxPacketSize (by decide)
  | maxHeaders => exact .maxHeaders (by decide)
  | rejectEmptyKeys => exact .rejectEmptyKeys false

/-- Limits that were read are words, whatever text they were read from. -/
theorem admits_of_ofValue? {v : Json.Value} {l : Limits} (h : ofValue? v = some l) (f : Field) :
    f.Admits (l.value f) := by
  obtain ⟨d, hsound, rfl⟩ : ∃ d : Draft, d.Sound ∧ d.limits = l := by
    cases v with
    | object members =>
        obtain ⟨d, hd, rfl⟩ := Option.map_eq_some_iff.mp h
        exact ⟨d, Draft.sound_empty.setMembers hd, rfl⟩
    | array elements =>
        obtain ⟨d, hd, rfl⟩ := Option.map_eq_some_iff.mp h
        exact ⟨d, Draft.sound_empty.setElements hd, rfl⟩
    | _ => cases h
  rw [Draft.value_limits]
  cases hu : d.value? f with
  | none => exact usual_admitted f
  | some u => exact hsound f u hu

end PacketHost.Limits
