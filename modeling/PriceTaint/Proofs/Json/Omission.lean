/-
Leaving members out.

A record may be written without some of its members. Which ones, a *form* says: it follows the
shape of the written value and gives, for every member that need not be there, the value that
the member has when it is not. A member without such a default has to be there.

What is left out is described from outside. An *omission* points to members anywhere in a value,
by the place of their object and their name, and has no idea of forms. It takes effect on a
member unless something around the member is left out already. A reader *tolerates* a form if it
does not notice omissions of defaults, and if it refuses a value as soon as a member is gone that
has no default.
-/
import PriceTaint.Proofs.Json.Codec

set_option autoImplicit false

namespace PriceTaint.Json

/-! ## Omissions -/

/-- One step into a value: to an item of an array, or to a member of an object. -/
inductive Step where
  | item (index : Nat)
  | member (name : String)
deriving DecidableEq, Repr

/-- Which members are left out: in the object at a place, those of a name. -/
abbrev Omission := (place : List Step) → (name : String) → Bool

/-- What is left out behind a step. -/
def Omission.inside (o : Omission) (step : Step) : Omission := fun place name =>
  o (step :: place) name

mutual
/-- The value without the members that are left out. -/
def without (o : Omission) : Json → Json
  | .array items => .array (itemsWithout o 0 items)
  | .object members => .object (membersWithout o members)
  | v => v

/-- The items from a position on, each without what is left out of it. -/
def itemsWithout (o : Omission) (index : Nat) : List Json → List Json
  | [] => []
  | v :: items => without (o.inside (.item index)) v :: itemsWithout o (index + 1) items

/-- The members that stay, each without what is left out of it. -/
def membersWithout (o : Omission) : List (String × Json) → List (String × Json)
  | [] => []
  | m :: members =>
    if o [] m.1 then membersWithout o members
    else (m.1, without (o.inside (.member m.1)) m.2) :: membersWithout o members
end

/-- The omission takes effect on a member: it is there, with a value, and is left out of an
object that stays. -/
inductive Loses : Omission → Json → List Step → String → Json → Prop where
  | here {o : Omission} {members : List (String × Json)} {name : String} {v : Json}
      (h : (name, v) ∈ members) (hout : o [] name = true) : Loses o (.object members) [] name v
  | member {o : Omission} {members : List (String × Json)} {m : String} {v : Json}
      {place : List Step} {name : String} {u : Json} (h : (m, v) ∈ members)
      (hstays : o [] m = false) (hrest : Loses (o.inside (.member m)) v place name u) :
      Loses o (.object members) (.member m :: place) name u
  | item {o : Omission} {items : List Json} {i : Nat} {v : Json} {place : List Step}
      {name : String} {u : Json} (h : items[i]? = some v)
      (hrest : Loses (o.inside (.item i)) v place name u) :
      Loses o (.array items) (.item i :: place) name u

/-- What is left of a member. -/
def rest (o : Omission) (m : String × Json) : Option Json :=
  if o [] m.1 then none else some (m.2.without (o.inside (.member m.1)))

theorem membersWithout_eq (o : Omission) (members : List (String × Json)) :
    membersWithout o members = written (members.map fun m => (m.1, rest o m)) := by
  induction members with
  | nil => rfl
  | cons m members ih =>
    rw [membersWithout, ih, List.map_cons]
    cases hout : o [] m.1 with
    | true => exact (List.filterMap_cons_none (by simp [rest, hout])).symm
    | false => exact (List.filterMap_cons_some (by simp [rest, hout])).symm

/-- A record whose members are partly left out is still a record: its reader finds what is left
of every member. -/
theorem fields?_without {members : List (String × Json)} (v : Json) (names : List String)
    (hv : v = .object members) (hnames : members.map Prod.fst = names) (hnodup : names.Nodup)
    (o : Omission) :
    ∃ fields, (v.without o).fields? names = some fields
      ∧ ∀ m ∈ members, fields.lookup m.1 = rest o m := by
  obtain ⟨fields, hfields, hslots⟩ := fields?_of_written
    (members.map fun m => (m.1, rest o m)) (v.without o) names
    (by rw [hv, without, membersWithout_eq]) (by rw [List.map_map, ← hnames]; rfl) hnodup
  exact ⟨fields, hfields, fun m hm => hslots _ (List.mem_map_of_mem hm)⟩

/-! ### What loses nothing -/

/-- The omission takes no effect on the value. -/
def Keeps (o : Omission) (v : Json) : Prop := ∀ place name u, ¬ Loses o v place name u

theorem keeps_object_iff {o : Omission} (members : List (String × Json)) :
    Keeps o (.object members)
      ↔ ∀ m ∈ members, o [] m.1 = false ∧ Keeps (o.inside (.member m.1)) m.2 := by
  constructor
  · intro h m hm
    have hstays : o [] m.1 = false := Bool.eq_false_iff.mpr fun hout => h _ _ _ (.here hm hout)
    exact ⟨hstays, fun place name u hlost => h _ _ _ (.member hm hstays hlost)⟩
  · intro h place name u hlost
    cases hlost with
    | here hm hout => exact Bool.false_ne_true ((h _ hm).1.symm.trans hout)
    | member hm _ hrest => exact (h _ hm).2 _ _ _ hrest

theorem keeps_array_iff {o : Omission} (items : List Json) :
    Keeps o (.array items) ↔ ∀ i v, items[i]? = some v → Keeps (o.inside (.item i)) v := by
  constructor
  · intro h i v hv place name u hlost
    exact h _ _ _ (.item hv hlost)
  · intro h place name u hlost
    cases hlost with
    | item hv hrest => exact h _ _ hv _ _ _ hrest

theorem keeps_string (o : Omission) (s : String) : Keeps o (.string s) := nofun

/-- An omission of nothing takes no effect. -/
theorem keeps_of_complete (v : Json) : Keeps (fun _ _ => false) v := by
  generalize ho : (fun _ _ => false : Omission) = o
  intro place name u hlost
  induction hlost with
  | here _ hout =>
    subst ho
    cases hout
  | member _ _ _ ih =>
    subst ho
    exact ih rfl
  | item _ _ ih =>
    subst ho
    exact ih rfl

-- the recursion is that of `without`: over values, lists of items and lists of members
mutual

/-- Where nothing is lost, nothing changes. -/
theorem Keeps.without_eq : ∀ {o : Omission} {v : Json}, Keeps o v → v.without o = v
  | _, .array items, h => by
    rw [without, itemsWithout_eq_self 0 items]
    intro i v hv
    rw [Nat.zero_add]
    exact (keeps_array_iff items).mp h i v hv
  | _, .object members, h => by
    rw [without, membersWithout_eq_self members ((keeps_object_iff members).mp h)]
  | _, .null, _ => rfl
  | _, .bool _, _ => rfl
  | _, .number _, _ => rfl
  | _, .string _, _ => rfl
  | _, .unreadable, _ => rfl

theorem itemsWithout_eq_self : ∀ {o : Omission} (index : Nat) (items : List Json),
    (∀ i v, items[i]? = some v → Keeps (o.inside (.item (index + i))) v) →
    itemsWithout o index items = items
  | _, _, [], _ => rfl
  | _, index, v :: items, h => by
    have hfirst := h 0 v rfl
    rw [Nat.add_zero] at hfirst
    rw [itemsWithout, hfirst.without_eq, itemsWithout_eq_self (index + 1) items]
    intro i u hu
    rw [Nat.add_assoc, Nat.add_comm 1]
    exact h (i + 1) u hu

theorem membersWithout_eq_self : ∀ {o : Omission} (members : List (String × Json)),
    (∀ m ∈ members, o [] m.1 = false ∧ Keeps (o.inside (.member m.1)) m.2) →
    membersWithout o members = members
  | _, [], _ => rfl
  | _, (name, v) :: members, h => by
    obtain ⟨⟨hstays, hv⟩, hmembers⟩ := List.forall_mem_cons.mp h
    rw [membersWithout, if_neg (Bool.eq_false_iff.mp hstays), hv.without_eq,
      membersWithout_eq_self members hmembers]

end

/-! ## Forms -/

/-- The shape of a value, as far as members may be left out of it: nothing may be left out of a
plain value. A field of a record is its name, the value it has when it is left out, unless it has
to be there, and its own form. -/
inductive Form where
  | plain
  | list (item : Form)
  | record (fields : List (String × Option Json × Form))

namespace Form

/-- The default and the form of a field. -/
def field? : Form → String → Option (Option Json × Form)
  | .record fields, name => fields.lookup name
  | _, _ => none

/-- The form of what is behind a step. -/
def inside (form : Form) : Step → Form
  | .item _ => match form with
    | .list item => item
    | _ => .plain
  | .member name => ((form.field? name).map Prod.snd).getD .plain

/-- The value that a member has when it is left out, unless it has to be there. -/
def default? (form : Form) : List Step → String → Option Json
  | [], name => (form.field? name).bind Prod.fst
  | step :: place, name => (form.inside step).default? place name

/-- Every member that is lost is one that the condition allows for its default and value. -/
def Respects (form : Form) (allowed : Option Json → Json → Prop) (o : Omission) (v : Json) : Prop :=
  ∀ place name u, Loses o v place name u → allowed (form.default? place name) u

/-- Only members that have their default are lost. -/
def Allows (form : Form) (o : Omission) (v : Json) : Prop :=
  form.Respects (fun default v => default = some v) o v

/-- Only members that have a default are lost, whatever their value is. -/
def Spares (form : Form) (o : Omission) (v : Json) : Prop :=
  form.Respects (fun default _ => default ≠ none) o v

/-- A member is lost as the condition allows, or stays and loses nothing beyond it. -/
def MemberRespects (form : Form) (allowed : Option Json → Json → Prop) (o : Omission)
    (m : String × Json) : Prop :=
  if o [] m.1 then allowed (form.default? [] m.1) m.2
  else (form.inside (.member m.1)).Respects allowed (o.inside (.member m.1)) m.2

section Respects

variable {form : Form} {allowed : Option Json → Json → Prop} {o : Omission}

theorem respects_object_iff (members : List (String × Json)) :
    form.Respects allowed o (.object members)
      ↔ ∀ m ∈ members, form.MemberRespects allowed o m := by
  constructor
  · intro h m hm
    rw [MemberRespects]
    by_cases hout : o [] m.1 = true
    · rw [if_pos hout]
      exact h _ _ _ (.here hm hout)
    · rw [if_neg hout]
      intro place name u hlost
      exact h _ _ _ (.member hm (Bool.eq_false_iff.mpr hout) hlost)
  · intro h place name u hlost
    cases hlost with
    | here hm hout =>
      have hmember := h _ hm
      rwa [MemberRespects, if_pos hout] at hmember
    | member hm hstays hrest =>
      have hmember := h _ hm
      rw [MemberRespects, if_neg (Bool.eq_false_iff.mp hstays)] at hmember
      exact hmember _ _ _ hrest

theorem respects_array_iff (items : List Json) :
    form.Respects allowed o (.array items)
      ↔ ∀ i v, items[i]? = some v →
          (form.inside (.item i)).Respects allowed (o.inside (.item i)) v := by
  constructor
  · intro h i v hv place name u hlost
    exact h _ _ _ (.item hv hlost)
  · intro h place name u hlost
    cases hlost with
    | item hv hrest => exact h _ _ hv _ _ _ hrest

end Respects

theorem default?_plain (place : List Step) (name : String) : plain.default? place name = none := by
  induction place with
  | nil => rfl
  | cons step place ih => cases step <;> exact ih

theorem allows_plain_iff {o : Omission} {v : Json} : plain.Allows o v ↔ Keeps o v := by
  constructor
  · intro h place name u hlost
    have hdefault := h place name u hlost
    rw [default?_plain] at hdefault
    cases hdefault
  · intro h place name u hlost
    exact absurd hlost (h place name u)

end Form

/-! ## Readers that tolerate omissions -/

/-- The reader does not notice that members are left out of a written value that have their
default by the form, and refuses what has lost a member without a default. -/
structure Tolerates {α : Type} (form : Form) (encode : α → Json) (decode : Json → Option α)
    (Fits : α → Prop) : Prop where
  reads : ∀ {x o}, Fits x → form.Allows o (encode x) → decode ((encode x).without o) = some x
  spares : ∀ {x o y}, decode ((encode x).without o) = some y → form.Spares o (encode x)

section Combinators

variable {α : Type} {form : Form} {encode : α → Json} {decode : Json → Option α}
  {Fits : α → Prop} {height : Nat}

/-- If nothing may be left out, it is enough that the reader refuses all that has lost a
member. -/
theorem Tolerates.of_plain (h : Recovers encode decode Fits height)
    (hkeeps : ∀ {x o y}, decode ((encode x).without o) = some y → Keeps o (encode x)) :
    Tolerates .plain encode decode Fits where
  reads hx hallows := by rw [(Form.allows_plain_iff.mp hallows).without_eq, h.reads hx]
  spares hread place name u hlost := absurd hlost (hkeeps hread place name u)

/-- Values without members lose nothing. -/
theorem Tolerates.of_scalar (h : Recovers encode decode Fits height)
    (hscalar : ∀ x o, Keeps o (encode x)) : Tolerates .plain encode decode Fits :=
  .of_plain h fun _ => hscalar _ _

theorem tolerates_text : Tolerates .plain .string text? Anything :=
  .of_scalar faithful_text.toRecovers nofun

theorem tolerates_bool : Tolerates .plain .bool bool? Anything :=
  .of_scalar faithful_bool.toRecovers nofun

/-- Values that are written alike are the same. -/
theorem Tolerates.eq_of_encode_eq (h : Tolerates form encode decode Fits) {x y : α} (hx : Fits x)
    (hy : Fits y) (heq : encode x = encode y) : x = y := by
  have hreads : ∀ {z}, Fits z → decode (encode z) = some z := by
    intro z hz
    have hcomplete := keeps_of_complete (encode z)
    have hread := h.reads hz fun place name u hlost => absurd hlost (hcomplete place name u)
    rwa [hcomplete.without_eq] at hread
  have hsame := hreads hx
  rw [heq, hreads hy] at hsame
  exact (Option.some.inj hsame).symm

/-! ### Lists -/

/-- Items that can be read one by one can be read together. -/
theorem mapM_itemsWithout_eq_some {o : Omission} (index : Nat) {xs : List α}
    (h : ∀ i x, xs[i]? = some x →
      decode ((encode x).without (o.inside (.item (index + i)))) = some x) :
    (itemsWithout o index (xs.map encode)).mapM decode = some xs := by
  induction xs generalizing index with
  | nil => rfl
  | cons x xs ih =>
    have hx : decode ((encode x).without (o.inside (.item index))) = some x := h 0 x rfl
    have hxs : (itemsWithout o (index + 1) (xs.map encode)).mapM decode = some xs := by
      refine ih (index + 1) fun i y hy => ?_
      rw [Nat.add_assoc, Nat.add_comm 1]
      exact h (i + 1) y hy
    rw [List.map_cons, itemsWithout, List.mapM_cons, hx, hxs]
    rfl

/-- Items that can be read together can be read one by one. -/
theorem exists_of_mapM_itemsWithout {o : Omission} {index : Nat} {xs ys : List α}
    (h : (itemsWithout o index (xs.map encode)).mapM decode = some ys) (i : Nat) (x : α)
    (hx : xs[i]? = some x) :
    ∃ y, decode ((encode x).without (o.inside (.item (index + i)))) = some y := by
  induction xs generalizing index ys i with
  | nil => cases hx
  | cons first xs ih =>
    rw [List.map_cons, itemsWithout] at h
    simp only [List.mapM_cons, Option.bind_eq_bind, Option.bind_eq_some_iff, Option.pure_def,
      Option.some.injEq] at h
    obtain ⟨y, hy, later, hlater, -⟩ := h
    cases i with
    | zero =>
      cases hx
      exact ⟨y, hy⟩
    | succ i =>
      obtain ⟨z, hz⟩ := ih hlater i hx
      rw [Nat.add_assoc, Nat.add_comm 1] at hz
      exact ⟨z, hz⟩

/-- A list tolerates in its items what these tolerate. -/
theorem Tolerates.list (h : Tolerates form encode decode Fits) :
    Tolerates (.list form) (ofList encode) (list? decode) (fun xs => ∀ x ∈ xs, Fits x) where
  reads {xs o} hxs hallows := by
    rw [Form.Allows, ofList, Form.respects_array_iff] at hallows
    rw [ofList, without, list?]
    refine mapM_itemsWithout_eq_some 0 fun i x hx => ?_
    rw [Nat.zero_add]
    refine h.reads (hxs x (List.mem_of_getElem? hx)) (hallows i (encode x) ?_)
    rw [List.getElem?_map, hx]
    rfl
  spares {xs o ys} hread := by
    rw [Form.Spares, ofList, Form.respects_array_iff]
    intro i v hv
    rw [List.getElem?_map] at hv
    obtain ⟨x, hx, rfl⟩ := Option.map_eq_some_iff.mp hv
    obtain ⟨y, hy⟩ := exists_of_mapM_itemsWithout hread i x hx
    rw [Nat.zero_add] at hy
    exact h.spares hy

/-! ### Records -/

/-- Among the fields is what is left of the member, and only what has its default is left out of
it. -/
def Form.Offers (form : Form) (o : Omission) (fields : Fields) (m : String × Json) : Prop :=
  fields.lookup m.1 = rest o m ∧ form.MemberRespects (fun default v => default = some v) o m

theorem Form.Allows.fields? {whole : Form} {o : Omission} {v : Json} (h : whole.Allows o v)
    {members : List (String × Json)} (names : List String) (hv : v = .object members)
    (hnames : members.map Prod.fst = names) (hnodup : names.Nodup) :
    ∃ fields, (v.without o).fields? names = some fields
      ∧ ∀ m ∈ members, whole.Offers o fields m := by
  obtain ⟨fields, hfields, hmembers⟩ := fields?_without v names hv hnames hnodup o
  subst hv
  exact ⟨fields, hfields, fun m hm =>
    ⟨hmembers m hm, (Form.respects_object_iff members).mp h m hm⟩⟩

section Records

variable {whole : Form} {o : Omission} {fields : Fields} {name : String} {x y : α}

/-- A member without a default is read if what is left out is allowed: then it is there. -/
theorem Tolerates.reads_required (h : Tolerates form encode decode Fits)
    (hoffers : whole.Offers o fields (name, encode x))
    (hform : whole.field? name = some (none, form)) (hx : Fits x) :
    fields.required name decode = some x := by
  obtain ⟨hname, hallows⟩ := hoffers
  rw [Form.MemberRespects, Form.default?, Form.inside, hform] at hallows
  rw [Fields.required, hname, rest]
  cases hout : o [] name with
  | true => simp [hout] at hallows
  | false =>
    rw [hout, if_neg Bool.false_ne_true] at hallows
    rw [if_neg Bool.false_ne_true, Option.bind_some]
    exact h.reads hx hallows

/-- A member with a default is read if what is left out is allowed: either it is there, or it
has its default. -/
theorem Tolerates.reads_withDefault (h : Tolerates form encode decode Fits) (default : α)
    (hoffers : whole.Offers o fields (name, encode x))
    (hform : whole.field? name = some (some (encode default), form))
    (hdefault : Fits default) (hx : Fits x) :
    fields.withDefault name default decode = some x := by
  obtain ⟨hname, hallows⟩ := hoffers
  rw [Form.MemberRespects, Form.default?, Form.inside, hform] at hallows
  rw [Fields.withDefault, hname, rest]
  cases hout : o [] name with
  | true =>
    -- the value that is missing is written like the default, so it is the default
    rw [hout, if_pos rfl, Option.bind_some, Option.some.injEq] at hallows
    rw [if_pos rfl, h.eq_of_encode_eq hdefault hx hallows]
  | false =>
    rw [hout, if_neg Bool.false_ne_true] at hallows
    rw [if_neg Bool.false_ne_true]
    exact h.reads hx hallows

/-- A member without a default that has been read was there. -/
theorem Tolerates.spares_required (h : Tolerates form encode decode Fits)
    (hname : fields.lookup name = rest o (name, encode x))
    (hform : whole.field? name = some (none, form))
    (hread : fields.required name decode = some y) :
    whole.MemberRespects (fun default _ => default ≠ none) o (name, encode x) := by
  rw [Fields.required, hname, rest] at hread
  rw [Form.MemberRespects, Form.inside, hform]
  cases hout : o [] name with
  | true => simp [hout] at hread
  | false =>
    rw [hout, if_neg Bool.false_ne_true, Option.bind_some] at hread
    rw [if_neg Bool.false_ne_true]
    exact h.spares hread

/-- A member with a default that has been read was there or has been left out, and may be. -/
theorem Tolerates.spares_withDefault (h : Tolerates form encode decode Fits) {default : α}
    {fallback : Json} (hname : fields.lookup name = rest o (name, encode x))
    (hform : whole.field? name = some (some fallback, form))
    (hread : fields.withDefault name default decode = some y) :
    whole.MemberRespects (fun default _ => default ≠ none) o (name, encode x) := by
  rw [Fields.withDefault, hname, rest] at hread
  rw [Form.MemberRespects, Form.default?, Form.inside, hform]
  cases hout : o [] name with
  | true =>
    rw [if_pos rfl, Option.bind_some]
    exact Option.some_ne_none fallback
  | false =>
    rw [hout, if_neg Bool.false_ne_true] at hread
    rw [if_neg Bool.false_ne_true]
    exact h.spares hread

end Records

/-! ### Choices -/

/-- Where the empty object cannot be read, a member that is alone in its object cannot be
missed. -/
theorem stays_of_single (decode : Json → Option α) (hempty : decode (.object []) = none)
    {o : Omission} {name : String} {v : Json} {y : α}
    (h : decode ((Json.object [(name, v)]).without o) = some y) :
    o [] name = false
      ∧ decode (.object [(name, v.without (o.inside (.member name)))]) = some y := by
  rw [without, membersWithout, membersWithout] at h
  cases hout : o [] name with
  | true =>
    rw [hout, if_pos rfl, hempty] at h
    cases h
  | false =>
    rw [hout, if_neg Bool.false_ne_true] at h
    exact ⟨rfl, h⟩

/-- A tag next to its content: where the bare tag cannot be read, neither of the two can be
missed. -/
theorem keeps_of_tagged? {read : String × Option Json → Option α} {y : α} {o : Omission}
    {tagName contentName tag : String} {content : Json}
    (h : (tagged? tagName contentName
      ((Json.object [(tagName, .string tag), (contentName, content)]).without o)).bind read
        = some y)
    (hne : tagName ≠ contentName) (hbare : read (tag, none) = none)
    (hscalar : ∀ o, Keeps o content) :
    Keeps o (.object [(tagName, .string tag), (contentName, content)]) := by
  obtain ⟨fields, hfields, hmembers⟩ := fields?_without
    (.object [(tagName, .string tag), (contentName, content)]) [tagName, contentName] rfl rfl
    (by simp [hne]) o
  simp only [List.forall_mem_cons] at hmembers
  obtain ⟨htag, hcontent, -⟩ := hmembers
  rw [without] at h hfields
  rw [tagged?, hfields, Option.bind_eq_bind, Option.bind_some, Fields.required, htag, hcontent,
    rest, rest] at h
  have htagStays : o [] tagName = false := by
    refine Bool.eq_false_iff.mpr fun hout => ?_
    rw [if_pos hout] at h
    exact Option.some_ne_none y h.symm
  have hcontentStays : o [] contentName = false := by
    refine Bool.eq_false_iff.mpr fun hout => ?_
    rw [if_neg (Bool.eq_false_iff.mp htagStays), if_pos hout] at h
    exact Option.some_ne_none y (h.symm.trans hbare)
  refine (keeps_object_iff _).mpr ?_
  simp only [List.forall_mem_cons]
  exact ⟨⟨htagStays, keeps_string _ tag⟩, ⟨hcontentStays, hscalar _⟩, List.forall_mem_nil _⟩

end Combinators

end PriceTaint.Json
