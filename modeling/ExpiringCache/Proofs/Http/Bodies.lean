import ExpiringCache.Http.Body
import ExpiringCache.Proofs.Json.Numeral
import ExpiringCache.Proofs.Json.Quoted

/-! # Bodies are read as clients write them

    A client writes a body member by member.  The reader takes one member
    after the other in as many steps, each of which adds to what has been
    read before; so the body that is read is the one that was written.  A
    lifetime that is not written, or written as `null`, is none. -/

namespace ExpiringCache.Json

/-- Behind the value of a member stands the next member or the end. -/
def EndsMember (rest : List Char) : Prop := rest.head? = some ',' ∨ rest.head? = some '}'

/-- Neither of them carries a numeral on. -/
theorem EndsMember.ends {rest : List Char} (h : EndsMember rest) : Numeral.Ends rest := by
  intro c hc
  rcases h with hcomma | hbrace
  · rw [hcomma] at hc
    cases hc
    decide
  · rw [hbrace] at hc
    cases hc
    decide

/-- A text in which whoever reads a member finds a value. -/
def StandsFor (text : String) (value : Value) : Prop :=
  ∀ rest, EndsMember rest → readValue (deepest - 1) (text.toList ++ rest) = .ok (value, rest)

/-- Values without parts, of which the numbers are whole and fit a word. -/
inductive Value.Simple : Value → Prop where
  | null : Simple .null
  | bool (b : Bool) : Simple (.bool b)
  | whole {i : Int} (hi : Word.Fits i) : Simple (.int i)
  | string (s : String) : Simple (.string s)

/-- Such a value may be written as the service writes it. -/
theorem Value.Simple.standsFor {value : Value} (h : value.Simple) :
    StandsFor value.render value := by
  intro rest hrest
  cases h with
  | null =>
      rw [readValue]
      rfl
  | bool b =>
      rw [readValue]
      cases b with
      | true => rfl
      | false => rfl
  | whole hi => exact readValue_toString _ hi hrest.ends
  | string s => exact readValue_quote _ s rest

section Fields

variable {σ : Type} {fields : List (RecordField σ)} {state state' : σ}

/-- One step of the reader takes in one member. -/
theorem readFields_member {name : String} {field : RecordField σ} {text rest : List Char}
    (fuel : Nat) (first : Bool)
    (hfield : fields.find? (fun field => field.name == name) = some field)
    (hfresh : field.isRead state = false)
    (hread : field.read state (text ++ rest) = .ok (state', rest)) :
    readFields fields (fuel + 1) first state
        ((if first then [] else [',']) ++ ((quote name).toList ++ ':' :: (text ++ rest))) =
      readFields fields fuel false state' rest := by
  have hmember : (readColon (':' :: (text ++ rest))).bind (field.read state) = .ok (state', rest) :=
    hread
  rw [readFields, nextName_quote]
  simp only [hfield, hfresh, hmember, Bool.false_eq_true, if_false]

/-- The last step finds the end. -/
theorem readFields_end (fuel : Nat) (first : Bool) (rest : List Char) :
    readFields fields (fuel + 1) first state ('}' :: rest) = .ok (state, rest) := rfl

/-- A record is made of what was read of its members; there are enough steps
    for all of them. -/
theorem RecordKind.read_object {α : Type} (kind : RecordKind σ α) {members rest : List Char}
    {record : α} (count : Nat) (hcount : count ≤ members.length)
    (hmembers : ∀ fuel, readFields kind.fields (fuel + (count + 1)) true kind.start members =
      .ok (state, rest))
    (hcomplete : kind.complete state = .ok record) :
    kind.read ('{' :: members) = .ok (record, rest) := by
  obtain ⟨fuel, hfuel⟩ := Nat.exists_eq_add_of_le' hcount
  have hskipped : skipBlanks ('{' :: members) = '{' :: members := rfl
  have hread : readFields kind.fields (members.length + 1) true kind.start members =
      .ok (state, rest) := by
    rw [hfuel, Nat.add_assoc]
    exact hmembers fuel
  simp only [RecordKind.read, hskipped, hread, hcomplete]

end Fields

end ExpiringCache.Json

namespace ExpiringCache.Http

open Json

/-! ## Lifetimes -/

/-- The text of a body with a lifetime alone. -/
def LifetimeBody.text (ms : Int) : String := "\x7b\"ttl_ms\":" ++ toString ms ++ "\x7d"

/-- A lifetime is read that was written. -/
theorem LifetimeBody.readBegin_text {ms : Int} (hms : Word.Fits ms) :
    readBegin LifetimeBody.read (text ms) = .ok ⟨ms⟩ := by
  have htext : (text ms).toList =
      '{' :: ([] ++ ((quote "ttl_ms").toList ++ ':' :: ((toString ms).toList ++ ['}']))) := by
    have hopened : "\x7b\"ttl_ms\":" = "\x7b" ++ quote "ttl_ms" ++ ":" := rfl
    rw [text, hopened]
    simp only [String.toList_append, List.append_assoc]
    rfl
  have hmembers : ∀ fuel, readFields fields (fuel + 2) true none
      ([] ++ ((quote "ttl_ms").toList ++ ':' :: ((toString ms).toList ++ ['}']))) =
        .ok (some ms, []) := by
    intro fuel
    refine (readFields_member (fuel + 1) true rfl rfl ?_).trans (readFields_end fuel false [])
    dsimp only
    rw [readWhole_toString hms (EndsMember.ends (.inr rfl))]
    rfl
  have hrecord := kind.read_object 1 (by simp only [List.length_append, List.length_cons]; omega)
    hmembers rfl
  rw [readBegin, htext, LifetimeBody.read, hrecord]
  rfl

/-! ## Values with lifetimes -/

/-- A lifetime as a client writes it. -/
def ttlText : Option Int → String
  | none => "null"
  | some ms => toString ms

/-- The member of a body that gives a lifetime, unless the client leaves it
    out. -/
def ttlMember : Option (Option Int) → String
  | none => ""
  | some ttl => ",\"ttl_ms\":" ++ ttlText ttl

/-- A lifetime is read that was written. -/
theorem readWholeOrNull_ttlText {ttl : Option Int} (hfits : ∀ ms, ttl = some ms → Word.Fits ms) :
    readWholeOrNull ((ttlText ttl).toList ++ ['}']) = .ok (ttl, ['}']) := by
  cases ttl with
  | none => rfl
  | some ms => exact readWholeOrNull_toString (hfits ms rfl) (EndsMember.ends (.inr rfl))

/-- The text of a body with a key and a value, which are given as they are
    written. -/
def WriteBody.text (key value : String) (ttl : Option (Option Int)) : String :=
  "\x7b\"key\":" ++ quote key ++ ",\"value\":" ++ value ++ ttlMember ttl ++ "\x7d"

namespace WriteBody

variable {key text : String} {value : Value} {ttl : Option (Option Int)}

/-- A member with a lifetime comes behind a comma. -/
theorem toList_ttlMember (ttl : Option Int) :
    (ttlMember (some ttl)).toList ++ ['}'] =
      [','] ++ ((quote "ttl_ms").toList ++ ':' :: ((ttlText ttl).toList ++ ['}'])) := by
  have hname : ",\"ttl_ms\":" = "," ++ quote "ttl_ms" ++ ":" := rfl
  rw [ttlMember, hname]
  simp only [String.toList_append, List.append_assoc]
  rfl

/-- The member with the lifetime is the last one, if there is one. -/
theorem readFields_ttlMember (hfits : ∀ ms, ttl = some (some ms) → Word.Fits ms) (fuel : Nat) :
    readFields fields (fuel + 2) false ⟨some key, some value, none⟩
        ((ttlMember ttl).toList ++ ['}']) =
      .ok (⟨some key, some value, ttl⟩, []) := by
  cases ttl with
  | none => exact readFields_end (fuel + 1) false []
  | some ttl =>
      rw [toList_ttlMember]
      refine (readFields_member (fuel + 1) false rfl rfl ?_).trans (readFields_end fuel false [])
      dsimp only
      rw [readWholeOrNull_ttlText fun ms hms => hfits ms (congrArg some hms)]
      rfl

/-- What stands behind the value ends its member. -/
theorem endsMember_ttlMember (ttl : Option (Option Int)) :
    EndsMember ((ttlMember ttl).toList ++ ['}']) := by
  cases ttl with
  | none => exact .inr rfl
  | some ttl =>
      rw [toList_ttlMember]
      exact .inl rfl

/-- The members of a body as they are written. -/
def members (key text : String) (ttl : Option (Option Int)) : List Char :=
  [] ++ ((quote "key").toList ++ ':' :: ((quote key).toList ++
    ([','] ++ ((quote "value").toList ++ ':' :: (text.toList ++
      ((ttlMember ttl).toList ++ ['}']))))))

/-- The first member is read as the key. -/
theorem readFields_key (fuel : Nat) (rest : List Char) :
    readFields fields (fuel + 1) true ⟨none, none, none⟩
        ([] ++ ((quote "key").toList ++ ':' :: ((quote key).toList ++ rest))) =
      readFields fields fuel false ⟨some key, none, none⟩ rest := by
  refine readFields_member fuel true rfl rfl ?_
  dsimp only
  rw [readText_quote]
  rfl

/-- The second member is read as the value. -/
theorem readFields_value (hvalue : StandsFor text value) (fuel : Nat) {rest : List Char}
    (hrest : EndsMember rest) :
    readFields fields (fuel + 1) false ⟨some key, none, none⟩
        ([','] ++ ((quote "value").toList ++ ':' :: (text.toList ++ rest))) =
      readFields fields fuel false ⟨some key, some value, none⟩ rest := by
  refine readFields_member fuel false rfl rfl ?_
  dsimp only
  rw [hvalue rest hrest]
  rfl

/-- The text of a body is a brace with its members behind it. -/
theorem toList_text : (WriteBody.text key text ttl).toList = '{' :: members key text ttl := by
  have hkey : "\x7b\"key\":" = "\x7b" ++ quote "key" ++ ":" := rfl
  have hname : ",\"value\":" = "," ++ quote "value" ++ ":" := rfl
  have hmarks : "\x7b".toList = ['{'] ∧ ":".toList = [':'] ∧ ",".toList = [','] ∧
      "\x7d".toList = ['}'] := ⟨rfl, rfl, rfl, rfl⟩
  rw [WriteBody.text, hkey, hname, members]
  simp only [String.toList_append, List.append_assoc, hmarks, List.cons_append, List.nil_append]

/-- A body is read that was written. -/
theorem readBegin_text (hvalue : StandsFor text value)
    (hfits : ∀ ms, ttl = some (some ms) → Word.Fits ms) :
    readBegin read (WriteBody.text key text ttl) = .ok ⟨key, value, ttl.join⟩ := by
  have hcount : 3 ≤ (members key text ttl).length := by
    simp only [members, List.length_append, List.length_cons]
    omega
  have hmembers : ∀ fuel, readFields fields (fuel + 4) true ⟨none, none, none⟩
      (members key text ttl) = .ok (⟨some key, some value, ttl⟩, []) := by
    intro fuel
    rw [members, readFields_key, readFields_value hvalue _ (endsMember_ttlMember ttl),
      readFields_ttlMember hfits]
  have hrecord := kind.read_object 3 hcount hmembers rfl
  rw [readBegin, toList_text, read, hrecord]
  rfl

end WriteBody

end ExpiringCache.Http
