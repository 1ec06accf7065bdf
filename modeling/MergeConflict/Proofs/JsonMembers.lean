import Mathlib.Data.List.Forall2
import MergeConflict.Json.Decoder
import MergeConflict.Proofs.JsonTexts

/-!
# Records of which members are gone

Members are taken out of a value by the names that lead to them. A record is written as an object
with a member for each of its fields; what is left of that object is read as the record again, except
that the fields of the members that are gone keep what the blank record holds.

Main statement: `record_without`.
-/

namespace MergeConflict.Json

/-! ## Taking members out -/

mutual

/-- A value less the members that are gone; a member goes by the names that lead to it. -/
def without (gone : List String → Bool) : Json → Json
  | .obj fields => .obj (fieldsWithout gone fields)
  | value => value

def fieldsWithout (gone : List String → Bool) : List (String × Json) → List (String × Json)
  | [] => []
  | (name, value) :: rest =>
    if gone [name] then fieldsWithout gone rest
    else (name, value.without fun path => gone (name :: path)) :: fieldsWithout gone rest

end

mutual

theorem Plain.without : ∀ {value : Json} (gone : List String → Bool), value.Plain →
    (value.without gone).Plain
  | .obj _, gone, plain => by
    rw [Json.without]
    exact FieldsPlain.without gone plain
  | .null, _, plain | .bool _, _, plain | .int _, _, plain | .real _, _, plain | .str _, _, plain
  | .arr _, _, plain | .flawed, _, plain | .broken, _, plain | .nameless _, _, plain => plain

theorem FieldsPlain.without : ∀ {fields : List (String × Json)} (gone : List String → Bool),
    FieldsPlain fields → FieldsPlain (fieldsWithout gone fields)
  | [], _, _ => trivial
  | (name, value) :: rest, gone, plain => by
    rw [fieldsWithout]
    split
    · exact FieldsPlain.without gone plain.2
    · exact ⟨Plain.without _ plain.1, FieldsPlain.without gone plain.2⟩

end

mutual

/-- Where no member is gone the value stays as it is. -/
theorem without_none : ∀ (value : Json), value.without (fun _ => false) = value
  | .obj fields => by rw [without, fieldsWithout_none fields]
  | .null | .bool _ | .int _ | .real _ | .str _ | .arr _ | .flawed | .broken | .nameless _ => rfl

theorem fieldsWithout_none : ∀ (fields : List (String × Json)),
    fieldsWithout (fun _ => false) fields = fields
  | [] => rfl
  | (name, value) :: rest => by
    rw [fieldsWithout, if_neg Bool.false_ne_true, without_none value, fieldsWithout_none rest]

end

/-! ## The members of a written record -/

variable {σ α : Type}

/-- A member of a record as it is written, and what becomes of its field in a record that is read. -/
structure Member (σ : Type) where
  name : String
  value : Json
  put : (gone : Bool) → σ → σ
  /-- The field stays as it was where the member is gone. -/
  put_gone : ∀ record, put true record = record

def Member.entry (member : Member σ) : String × Json :=
  (member.name, member.value)

/-- The field is the one the member is written for: it may be left out, and it reads what is left
of the member. -/
structure Field.Reads (gone : List String → Bool) (field : Field σ) (member : Member σ) : Prop where
  name : field.name = member.name
  alone : field.secondName = none
  optional : field.presence = .defaulted
  read : ∀ record, field.read (member.value.without fun path => gone (member.name :: path)) record =
    .ok (member.put false record)

variable {gone : List String → Bool} {fields : List (Field σ)} {members : List (Member σ)}

theorem Field.Reads.defaulted {name : String} {value : Json} {put : Bool → σ → σ}
    {put_gone : ∀ record, put true record = record} {decode : Decoder α} {write : α → σ → σ} {a : α}
    (decodes : decode (value.without fun path => gone (name :: path)) = .ok a)
    (puts : ∀ record, put false record = write a record) :
    Field.Reads gone (.defaulted name decode write) ⟨name, value, put, put_gone⟩ where
  name := rfl
  alone := rfl
  optional := rfl
  read record := by
    change (decode (value.without fun path => gone (name :: path))).map _ = .ok (put false record)
    rw [decodes, puts]
    rfl

theorem exists_find?_reads (reads : List.Forall₂ (Field.Reads gone) fields members)
    (distinct : (members.map Member.name).Nodup) {member : Member σ} (inside : member ∈ members) :
    ∃ field, fields.find? (·.isNamed member.name) = some field ∧ field.Reads gone member := by
  induction reads with
  | nil => cases inside
  | @cons field first fields members read reads ih =>
    have isNamed (name : String) : field.isNamed name = (first.name == name) := by
      rw [Field.isNamed, read.name, read.alone]
      exact Bool.or_false _
    rw [List.map_cons, List.nodup_cons] at distinct
    rcases List.mem_cons.1 inside with rfl | later
    · exact ⟨field, List.find?_cons_of_pos (by rw [isNamed, beq_self_eq_true]), read⟩
    · obtain ⟨other, found, reads⟩ := ih distinct.2 later
      have apart : first.name ≠ member.name := fun same =>
        distinct.1 (same ▸ List.mem_map_of_mem later)
      exact ⟨other, by rwa [List.find?_cons_of_neg (by rwa [isNamed, beq_iff_eq])], reads⟩

/-- The members that are left are put into the record in their order. -/
theorem putFields_without
    (reads : ∀ member ∈ members, ∃ field, fields.find? (·.isNamed member.name) = some field ∧
      field.Reads gone member)
    (distinct : (members.map Member.name).Nodup) (plain : FieldsPlain (members.map Member.entry))
    {seen : List String} (unseen : ∀ member ∈ members, member.name ∉ seen) (record : σ) :
    ∃ seen', putFields fields seen record (fieldsWithout gone (members.map Member.entry)) =
      .ok (seen',
        members.foldl (fun record member => member.put (gone [member.name]) record) record) := by
  induction members generalizing seen record with
  | nil => exact ⟨seen, rfl⟩
  | cons member members ih =>
    obtain ⟨⟨field, found, read⟩, others⟩ := List.forall_mem_cons.1 reads
    rw [List.forall_mem_cons] at unseen
    rw [List.map_cons, List.nodup_cons] at distinct
    obtain ⟨first, later⟩ : member.value.Plain ∧ FieldsPlain (members.map Member.entry) := plain
    rw [List.map_cons, Member.entry, fieldsWithout, List.foldl_cons]
    cases lost : gone [member.name] with
    | true =>
      rw [if_pos rfl, member.put_gone]
      exact ih others distinct.2 later unseen.2 record
    | false =>
      rw [if_neg Bool.false_ne_true]
      have fresh : ∀ other ∈ members, other.name ∉ field.name :: seen := by
        intro other inside
        rw [List.mem_cons, not_or, read.name]
        exact ⟨fun same => distinct.1 (same ▸ List.mem_map_of_mem inside), unseen.2 other inside⟩
      obtain ⟨seen', put⟩ := ih others distinct.2 later fresh (member.put false record)
      have proper : ∀ inner, member.value.without (fun path => gone (member.name :: path)) ≠
          .nameless inner := by
        intro inner same
        have plain := first.without fun path => gone (member.name :: path)
        rw [same] at plain
        exact plain
      have free : ¬seen.contains field.name = true := by
        rw [List.contains_iff_mem, read.name]
        exact unseen.1
      refine ⟨seen', ?_⟩
      rw [putFields]
      · simp only [found, if_neg free, read.read, bind, Except.bind]
        exact put
      · exact proper

/-- A record whose fields may be left out is read from what is left of its members: the fields of
those that are gone are as in the blank record. -/
theorem record_without {blank : σ} (members : List (Member σ))
    (reads : List.Forall₂ (Field.Reads gone) fields members)
    (distinct : (members.map Member.name).Nodup) (plain : FieldsPlain (members.map Member.entry)) :
    record blank fields ((Json.obj (members.map Member.entry)).without gone) =
      .ok (members.foldl (fun record member => member.put (gone [member.name]) record) blank) := by
  have unseen : ∀ member ∈ members, member.name ∉ ([] : List String) :=
    fun _ _ => List.not_mem_nil
  obtain ⟨seen, put⟩ := putFields_without
    (fun _ inside => exists_find?_reads reads distinct inside) distinct plain unseen blank
  have optional : ∀ field ∈ fields, field.presence = .defaulted := by
    intro field inside
    obtain ⟨i, bound, rfl⟩ := List.mem_iff_getElem.1 inside
    exact (reads.get bound (reads.length_eq ▸ bound)).optional
  have missing : ¬(fields.any fun field =>
      field.presence = .required && !seen.contains field.name) = true := by
    rw [List.any_eq_true]
    rintro ⟨field, inside, required⟩
    rw [optional field inside] at required
    nomatch required
  rw [without, record]
  simp only [put, bind, Except.bind]
  exact if_neg missing

end MergeConflict.Json
