import Workbench.Json.Reader

/-!
# Distinct keys

A text may write a key of an object more than once, but the value read from it holds every key once,
in objects at any depth. So a member can be looked up without asking for its place.
-/

namespace Workbench.Json

variable {key : String} {value : Json} {members done : List (String × Json)}

/-- No object in the value holds a key twice. -/
inductive Distinct : Json → Prop
  | null : Distinct null
  | bool (b : Bool) : Distinct (bool b)
  | int (n : Int) : Distinct (int n)
  | decimal (d : Decimal) : Distinct (decimal d)
  | str (s : String) : Distinct (str s)
  | arr {items : List Json} : (∀ item ∈ items, Distinct item) → Distinct (arr items)
  | obj {members : List (String × Json)} : (members.map Prod.fst).Nodup →
      (∀ m ∈ members, Distinct m.2) → Distinct (obj members)

/-! ### Gathering -/

theorem mem_of_mem_setMember {m : String × Json} (mem : m ∈ setMember key value members) :
    m = (key, value) ∨ m ∈ members := by
  induction members with
  | nil => exact .inl (List.mem_singleton.1 mem)
  | cons first rest ih =>
      unfold setMember at mem
      split at mem
      · next same =>
        rcases List.mem_cons.1 mem with rfl | mem
        · exact .inl (congrArg (·, value) same)
        · exact .inr (List.mem_cons_of_mem _ mem)
      · rcases List.mem_cons.1 mem with rfl | mem
        · exact .inr (List.mem_cons_self ..)
        · exact (ih mem).imp_right (List.mem_cons_of_mem _)

theorem nodup_setMember (distinct : (members.map Prod.fst).Nodup) :
    ((setMember key value members).map Prod.fst).Nodup := by
  induction members with
  | nil => simp [setMember]
  | cons first rest ih =>
      obtain ⟨fresh, distinct⟩ := List.nodup_cons.1 distinct
      unfold setMember
      split
      · exact List.nodup_cons.2 ⟨fresh, distinct⟩
      · next other =>
        refine List.nodup_cons.2 ⟨fun mem => ?_, ih distinct⟩
        obtain ⟨m, mem, same⟩ := List.mem_map.1 mem
        rcases mem_of_mem_setMember mem with rfl | mem
        · exact other same.symm
        · exact fresh (List.mem_map.2 ⟨m, mem, same⟩)

theorem Distinct.foldl_setMember (sound : Distinct (.obj done))
    (each : ∀ m ∈ members, Distinct m.2) :
    Distinct (.obj (members.foldl (fun done (k, v) => setMember k v done) done)) := by
  induction members generalizing done with
  | nil => exact sound
  | cons m members ih =>
      obtain ⟨head, tail⟩ := List.forall_mem_cons.1 each
      cases sound with
      | obj distinct inside =>
          refine ih (.obj (nodup_setMember distinct) fun m' mem => ?_) tail
          rcases mem_of_mem_setMember mem with rfl | mem
          · exact head
          · exact inside m' mem

theorem Distinct.ofMembers (each : ∀ m ∈ members, Distinct m.2) :
    Distinct (.obj (ofMembers members)) :=
  Distinct.foldl_setMember (.obj List.nodup_nil (List.forall_mem_nil _)) each

/-! ### Reading -/

/-- Whatever the reader reads is so. -/
def Gives {α : Type} (reader : Reader α) (P : α → Prop) : Prop :=
  ∀ input a rest, reader input = some (a, rest) → P a

theorem distinct_of_numberOf? {negative : Bool} {whole : List Char} {fraction : Option (List Char)}
    {exponent : Option Int} (number : numberOf? negative whole fraction exponent = some value) :
    Distinct value := by
  unfold numberOf? at number
  dsimp only at number
  split at number
  · cases number
    exact .int _
  · split at number
    · cases number
      exact .int _
    · split at number
      · cases number
      · cases number
        exact .decimal _

theorem gives_readNumber : Gives readNumber Distinct := by
  intro input value rest read
  simp only [readNumber, Option.bind_eq_bind, Option.bind_eq_some_iff, Option.pure_def,
    Option.some.injEq, Prod.mk.injEq] at read
  obtain ⟨_, -, _, -, _, -, _, number, rfl, -⟩ := read
  exact distinct_of_numberOf? number

section

variable {item : Reader Json} (gives : Gives item Distinct)
include gives

theorem distinct_of_readItemsAux (rounds : Nat) {done items : List Json} {input rest : List Char}
    (before : ∀ x ∈ done, Distinct x)
    (read : readItemsAux item rounds done input = some (items, rest)) :
    ∀ x ∈ items, Distinct x := by
  induction rounds generalizing done input with
  | zero => cases read
  | succ rounds ih =>
      simp only [readItemsAux, Option.bind_eq_bind, Option.bind_eq_some_iff] at read
      obtain ⟨⟨x, after⟩, first, read⟩ := read
      have here : ∀ y ∈ x :: done, Distinct y :=
        List.forall_mem_cons.2 ⟨gives _ _ _ first, before⟩
      split at read
      · exact ih here read
      · cases read
        exact fun y mem => here y (List.mem_reverse.1 mem)
      · cases read

theorem gives_readItems : Gives (readItems item) fun items => ∀ x ∈ items, Distinct x := by
  intro input items rest read
  unfold readItems at read
  split at read
  · cases read
    exact List.forall_mem_nil _
  · exact distinct_of_readItemsAux gives _ (List.forall_mem_nil _) read

theorem distinct_of_readMembersAux (rounds : Nat) {input rest : List Char}
    (before : ∀ m ∈ done, Distinct m.2)
    (read : readMembersAux item rounds done input = some (members, rest)) :
    ∀ m ∈ members, Distinct m.2 := by
  induction rounds generalizing done input with
  | zero => cases read
  | succ rounds ih =>
      simp only [readMembersAux, Option.bind_eq_bind, Option.bind_eq_some_iff] at read
      obtain ⟨⟨key, behind⟩, -, colon, -, ⟨x, after⟩, first, read⟩ := read
      have here : ∀ m ∈ (key, x) :: done, Distinct m.2 :=
        List.forall_mem_cons.2 ⟨gives _ _ _ first, before⟩
      split at read
      · exact ih here read
      · cases read
        exact here
      · cases read

theorem gives_readMembers :
    Gives (readMembers item) fun members => ∀ m ∈ members, Distinct m.2 := by
  intro input members rest read
  unfold readMembers at read
  split at read
  · cases read
    exact List.forall_mem_nil _
  · simp only [Option.bind_eq_bind, Option.bind_eq_some_iff] at read
    obtain ⟨⟨reversed, after⟩, read, same⟩ := read
    cases same
    have each := distinct_of_readMembersAux gives _ (List.forall_mem_nil _) read
    exact fun m mem => each m (List.mem_reverse.1 mem)

end

theorem gives_readValue_of {room : Nat}
    (inside : ∀ less, room = less + 1 → Gives (readValue ofMembers less) Distinct) :
    Gives (readValue ofMembers room) Distinct := by
  intro input value rest read
  unfold readValue at read
  split at read
  · cases read
  · split at read
    · cases read
    · next less =>
      obtain ⟨⟨items, _⟩, items', same⟩ := Option.map_eq_some_iff.1 read
      cases same
      exact .arr (gives_readItems (inside less rfl) _ _ _ items')
  · split at read
    · cases read
    · next less =>
      obtain ⟨⟨members, _⟩, members', same⟩ := Option.map_eq_some_iff.1 read
      cases same
      exact .ofMembers (gives_readMembers (inside less rfl) _ _ _ members')
  · obtain ⟨⟨s, _⟩, -, same⟩ := Option.map_eq_some_iff.1 read
    cases same
    exact .str s
  · obtain ⟨_, -, same⟩ := Option.map_eq_some_iff.1 read
    cases same
    exact .null
  · obtain ⟨_, -, same⟩ := Option.map_eq_some_iff.1 read
    cases same
    exact .bool true
  · obtain ⟨_, -, same⟩ := Option.map_eq_some_iff.1 read
    cases same
    exact .bool false
  · exact gives_readNumber _ _ _ read

/-- Nesting is the only recursion: the values inside are read with less room. -/
theorem gives_readValue (room : Nat) : Gives (readValue ofMembers room) Distinct := by
  induction room with
  | zero => exact gives_readValue_of nofun
  | succ room ih =>
      refine gives_readValue_of fun less same => ?_
      cases same
      exact ih

theorem distinct_of_parse? {text : String} (read : parse? text = some value) : Distinct value := by
  simp only [parse?, parseWith?, Option.bind_eq_bind, Option.bind_eq_some_iff] at read
  obtain ⟨⟨v, rest⟩, read, whole⟩ := read
  dsimp only at whole
  split at whole
  · cases whole
    exact gives_readValue _ _ _ _ read
  · cases whole

end Workbench.Json
