import DbusBroker.Bus.MatchCompare
import DbusBroker.Bus.RuleString
import DbusBroker.Lib.Terminated
import Mathlib.Data.List.Perm.Subperm
import Mathlib.Data.List.ReduceOption

/-!
# The buffer of match keys

`match_keys_parse` decodes the values of a rule into the buffer behind its keys, one after the other, and
the keys point into it. Here a pointer is an offset, and what was written so far is the buffer.

Decoding into a buffer and assigning a pointer do the same as decoding and assigning a string.
-/

namespace DbusBroker

open Terminated

/-- The fields of `MatchKeys`, with a kind of references to strings. -/
@[ext] structure MatchFields (α : Type) where
  type : UInt8
  filterSender : Option ℕ
  interface : Option α
  member : Option α
  path : Option α
  args : List (Option α)
  argpaths : List (Option α)
  destination : Option α
  sender : Option α
  pathNamespace : Option α
  arg0namespace : Option α

namespace MatchFields

variable {α β : Type}

/-- `MATCH_KEYS_NULL`. -/
def null : MatchFields α where
  type := dbusMessageTypeInvalid
  filterSender := none
  interface := none
  member := none
  path := none
  args := []
  argpaths := []
  destination := none
  sender := none
  pathNamespace := none
  arg0namespace := none

/-- The references of the fields, in the order in which they are cloned. -/
def slots (fields : MatchFields α) : List (Option α) :=
  fields.interface :: fields.member :: fields.path :: (fields.args ++ (fields.argpaths ++
    [fields.destination, fields.sender, fields.pathNamespace, fields.arg0namespace]))

/-- The fields with their references replaced. -/
def map (f : α → β) (fields : MatchFields α) : MatchFields β where
  type := fields.type
  filterSender := fields.filterSender
  interface := fields.interface.map f
  member := fields.member.map f
  path := fields.path.map f
  args := fields.args.map (Option.map f)
  argpaths := fields.argpaths.map (Option.map f)
  destination := fields.destination.map f
  sender := fields.sender.map f
  pathNamespace := fields.pathNamespace.map f
  arg0namespace := fields.arg0namespace.map f

end MatchFields

/-- The fields of keys, with the strings themselves. -/
def MatchKeys.fields (keys : MatchKeys) : MatchFields Bytes where
  type := keys.filter.type
  filterSender := keys.filter.sender
  interface := keys.filter.interface
  member := keys.filter.member
  path := keys.filter.path
  args := keys.filter.args
  argpaths := keys.filter.argpaths
  destination := keys.destination
  sender := keys.sender
  pathNamespace := keys.pathNamespace
  arg0namespace := keys.arg0namespace

/-- Keys are determined by their fields. -/
theorem MatchKeys.eq_of_fields_eq {keys keys' : MatchKeys} (h : keys.fields = keys'.fields) : keys = keys' := by
  have hfilter : keys.filter = keys'.filter :=
    MatchFilter.ext (congrArg MatchFields.type h) (congrArg MatchFields.filterSender h)
      (congrArg MatchFields.interface h) (congrArg MatchFields.member h) (congrArg MatchFields.path h)
      (congrArg MatchFields.args h) (congrArg MatchFields.argpaths h)
  exact MatchKeys.ext hfilter (congrArg MatchFields.destination h) (congrArg MatchFields.sender h)
    (congrArg MatchFields.pathNamespace h) (congrArg MatchFields.arg0namespace h)

/-! ## The code -/

section Code

variable {α : Type}

/-- A slot of an array of references, `NULL` behind the used part. -/
def slotAt (slots : List (Option α)) (i : ℕ) : Option α := (slots[i]?).join

/-- Write a slot and extend the used part up to it. -/
def slotSet (slots : List (Option α)) (i : ℕ) (value : α) : List (Option α) :=
  (slots ++ List.replicate (i + 1 - slots.length) none).set i (some value)

/-- The branch of `match_keys_assign` for keys that start with `arg`, on references. -/
def matchKeysAssignArgAt (keys : MatchFields α) (key : Bytes) (value : α) : Except MatchError (MatchFields α) :=
  let (i, key) := argIndex 2 key 0
  if i = 0 && keys.arg0namespace.isSome then .error .invalid
  else if 63 < i then .error .invalid
  else if (slotAt keys.args i).isSome || (slotAt keys.argpaths i).isSome then .error .invalid
  else if key = [] then .ok { keys with args := slotSet keys.args i value }
  else if key = lit "path" then .ok { keys with argpaths := slotSet keys.argpaths i value }
  else .error .invalid

/-- `match_keys_assign` on references, of which `read` is the string. -/
def matchKeysAssignAt (read : α → Bytes) (keys : MatchFields α) (key : Bytes) (value : α) (allowEavesdrop : Bool) :
    Except MatchError (MatchFields α) :=
  if key = lit "type" then
    if keys.type != dbusMessageTypeInvalid then .error .invalid
    else match matchType (read value) with
      | some type => .ok { keys with type := type }
      | none => .error .invalid
  else if key = lit "sender" then
    if keys.sender.isSome then .error .invalid
    else if dbusValidateName (read value) then
      .ok { keys with filterSender := (addressId (read value)).or keys.filterSender, sender := some value }
    else .error .invalid
  else if key = lit "destination" then
    if keys.destination.isSome then .error .invalid
    else if dbusValidateName (read value) then .ok { keys with destination := some value }
    else .error .invalid
  else if key = lit "interface" then
    if keys.interface.isSome then .error .invalid
    else if dbusValidateInterface (read value) then .ok { keys with interface := some value }
    else .error .invalid
  else if key = lit "member" then
    if keys.member.isSome then .error .invalid
    else if dbusValidateMember (read value) then .ok { keys with member := some value }
    else .error .invalid
  else if key = lit "path" then
    if keys.path.isSome || keys.pathNamespace.isSome then .error .invalid
    else if cDvarIsPath (read value) then .ok { keys with path := some value }
    else .error .invalid
  else if key = lit "path_namespace" then
    if keys.pathNamespace.isSome || keys.path.isSome then .error .invalid
    else if cDvarIsPath (read value) then .ok { keys with pathNamespace := some value }
    else .error .invalid
  else if key = lit "eavesdrop" then
    if !allowEavesdrop then .error .invalid
    else if read value != lit "true" && read value != lit "false" then .error .invalid
    else .ok keys
  else if key = lit "arg0namespace" then
    if keys.arg0namespace.isSome || (slotAt keys.args 0).isSome || (slotAt keys.argpaths 0).isSome then .error .invalid
    else if dbusValidateNamespace (read value) then .ok { keys with arg0namespace := some value }
    else .error .invalid
  else match stringPrefix key (lit "arg") with
    | some rest => matchKeysAssignArgAt keys rest value
    | none => .error .invalid

/-- `match_copy_value`: whether the value ends within quotes, what follows it, and the buffer with it. -/
def matchCopyValueInto : Bytes → Bool → Bytes → Bool × Bytes × Bytes
  | [], quoted, buffer => (quoted, [], buffer ++ [0])
  | c :: rest, quoted, buffer =>
    if c = byte '\'' then matchCopyValueInto rest (!quoted) buffer
    else if c = byte ',' && !quoted then (quoted, rest, buffer ++ [0])
    else
      match c = byte '\\' && !quoted, rest with
      | true, c' :: rest' =>
        if c' = byte '\'' then matchCopyValueInto rest' quoted (buffer ++ [c'])
        else matchCopyValueInto (c' :: rest') quoted (buffer ++ [c])
      | _, rest => matchCopyValueInto rest quoted (buffer ++ [c])

/-- The loop of `match_keys_parse`: its error, the keys and the buffer, unless the rounds do not suffice. -/
def matchKeysParseInto (allowEavesdrop : Bool) :
    ℕ → MatchFields ℕ → Bytes → Bytes → Option (MatchError × MatchFields ℕ × Bytes)
  | 0, _, _, _ => none
  | fuel + 1, keys, string, buffer =>
    match matchParseKey string with
    | .error e => some (e, keys, buffer)
    | .ok (key, string) =>
      match matchCopyValueInto string false buffer with
      | (true, _, written) => some (.invalid, keys, written)
      | (false, string, written) =>
        match matchKeysAssignAt (stringAt 0 written) keys key buffer.length allowEavesdrop with
        | .error e => some (e, keys, written)
        | .ok keys => matchKeysParseInto allowEavesdrop fuel keys string written

/-- `MatchKeys` with the buffer behind it; `written` is the part of the buffer that was written. -/
structure PackedKeys where
  fields : MatchFields ℕ
  nBuffer : ℕ
  written : Bytes

/-- What a function that fills the buffer leaves: its error, the keys, and whether its assertion held. -/
structure Filled where
  error : Option MatchError
  keys : PackedKeys
  asserts : Bool

/-- `match_keys_init` and `match_keys_parse`, of a string and the terminator behind it. -/
def matchKeysInit (fuel : ℕ) (string : Bytes) (allowEavesdrop : Bool) : Option Filled :=
  let nBuffer := string.length + 1
  match matchKeysParseInto allowEavesdrop fuel MatchFields.null string [] with
  | none => none
  | some (e, keys, written) =>
    some {
      error := if e = .eof then none else some e
      keys := ⟨keys, written.length, written⟩
      asserts := written.length ≤ nBuffer }

/-- Copy a string behind a pointer, and the pointer with it. -/
def copySlot (source buffer : Bytes) : Option ℕ → Option ℕ × Bytes
  | none => (none, buffer)
  | some p => (some buffer.length, push 0 buffer (stringAt 0 source p))

/-- Copy the slots of an array one after the other. -/
def copySlots (source : Bytes) : Bytes → List (Option ℕ) → List (Option ℕ) × Bytes
  | buffer, [] => ([], buffer)
  | buffer, slot :: slots =>
    let (slot, buffer) := copySlot source buffer slot
    let (slots, buffer) := copySlots source buffer slots
    (slot :: slots, buffer)

/-- `match_keys_clone`. -/
def matchKeysClone (old : PackedKeys) : Filled :=
  let (interface, p) := copySlot old.written [] old.fields.interface
  let (member, p) := copySlot old.written p old.fields.member
  let (path, p) := copySlot old.written p old.fields.path
  let (args, p) := copySlots old.written p old.fields.args
  let (argpaths, p) := copySlots old.written p old.fields.argpaths
  let (destination, p) := copySlot old.written p old.fields.destination
  let (sender, p) := copySlot old.written p old.fields.sender
  let (pathNamespace, p) := copySlot old.written p old.fields.pathNamespace
  let (arg0namespace, p) := copySlot old.written p old.fields.arg0namespace
  { error := none
    keys := {
      fields := {
        type := old.fields.type
        filterSender := old.fields.filterSender
        interface, member, path, args, argpaths, destination, sender, pathNamespace, arg0namespace }
      nBuffer := p.length
      written := p }
    asserts := p.length ≤ old.nBuffer }

end Code

/-! ## References -/

section References

variable {α β : Type} {v : α} {slot : Option α} {slots slots' : List (Option α)}

/-- At most one reference was added. -/
def Writes (v : α) (slots slots' : List (Option α)) : Prop := slots'.reduceOption.Subperm (v :: slots.reduceOption)

/-- Nothing was added. -/
theorem Writes.refl (v : α) (slots : List (Option α)) : Writes v slots slots := (List.sublist_cons_self v _).subperm

/-- A reference was put into a slot. -/
theorem writes_slot (front back : List (Option α)) (slot : Option α) (v : α) :
    Writes v (front ++ slot :: back) (front ++ some v :: back) := by
  have hslot : back.reduceOption.Sublist (slot :: back).reduceOption := (List.sublist_cons_self slot back).filterMap id
  rw [Writes, List.reduceOption_append, List.reduceOption_append, List.reduceOption_cons_of_some]
  exact List.perm_middle.subperm.trans ((hslot.append_left _).cons_cons v).subperm

/-- A reference was put into a slot behind the arrays. -/
theorem writes_behind (front args argpaths early late : List (Option α)) (slot : Option α) (v : α) :
    Writes v (front ++ (args ++ (argpaths ++ (early ++ slot :: late))))
      (front ++ (args ++ (argpaths ++ (early ++ some v :: late)))) := by
  have hwrites := writes_slot (front ++ (args ++ (argpaths ++ early))) late slot v
  simpa only [List.append_assoc] using hwrites

/-- A reference was put into an array. -/
theorem writes_slotSet (front back : List (Option α)) (i : ℕ) (v : α) :
    Writes v (front ++ (slots ++ back)) (front ++ (slotSet slots i v ++ back)) := by
  obtain ⟨more, hmore⟩ : ∃ more, slots ++ List.replicate (i + 1 - slots.length) none = more := ⟨_, rfl⟩
  have hlength : i < more.length := by
    rw [← hmore, List.length_append, List.length_replicate]
    omega
  have hreferences : slots.reduceOption = more.reduceOption := by
    rw [← hmore, List.reduceOption_append, List.reduceOption_replicate_none, List.append_nil]
  have hset : more.set i (some v) = more.take i ++ some v :: more.drop (i + 1) :=
    List.set_eq_take_append_cons_drop.trans (if_pos hlength)
  have hback : more.take i ++ more[i] :: more.drop (i + 1) = more := by
    rw [List.getElem_cons_drop, List.take_append_drop]
  have hsame : (front ++ (more ++ back)).reduceOption = (front ++ (slots ++ back)).reduceOption := by
    rw [List.reduceOption_append, List.reduceOption_append, List.reduceOption_append, List.reduceOption_append,
      hreferences]
  have hwrites := writes_slot (front ++ more.take i) (more.drop (i + 1) ++ back) more[i] v
  rw [List.append_assoc, List.append_assoc, ← List.cons_append, ← List.cons_append, ← List.append_assoc (more.take i),
    ← List.append_assoc (more.take i), hback, ← hset, Writes, hsame] at hwrites
  rw [slotSet, hmore]
  exact hwrites

/-- The string of a slot. -/
theorem slotAt_map (f : α → β) (slots : List (Option α)) (i : ℕ) :
    slotAt (slots.map (Option.map f)) i = (slotAt slots i).map f := by
  rw [slotAt, slotAt, List.getElem?_map]
  cases slots[i]? <;> rfl

/-- The strings of an array with a slot written. -/
theorem map_slotSet (f : α → β) (slots : List (Option α)) (i : ℕ) (v : α) :
    (slotSet slots i v).map (Option.map f) = slotSet (slots.map (Option.map f)) i (f v) := by
  rw [slotSet, slotSet, List.map_set, List.map_append, List.map_replicate, List.length_map]
  rfl

end References

/-! ## Keys and what they refer to -/

section Assign

variable {α : Type} {read : α → Bytes} {fields fields' : MatchFields α} {keys keys' : MatchKeys} {value : α}

/-- Both ways to assign a value agree: it is refused, or the fields still lead to the keys with at most one
reference added. -/
inductive AssignAgrees (read : α → Bytes) (fields : MatchFields α) (value : α) :
    Except MatchError (MatchFields α) → Except MatchError MatchKeys → Prop
  | invalid : AssignAgrees read fields value (.error .invalid) (.error .invalid)
  | ok {fields' : MatchFields α} {keys' : MatchKeys} (loads : fields'.map read = keys'.fields)
      (writes : Writes value fields.slots fields'.slots) : AssignAgrees read fields value (.ok fields') (.ok keys')

/-- A check that both make. -/
theorem AssignAgrees.guard {c : Bool} {r : Except MatchError (MatchFields α)} {r' : Except MatchError MatchKeys}
    (h : c = false → AssignAgrees read fields value r r') :
    AssignAgrees read fields value (if c then .error .invalid else r) (if c then .error .invalid else r') := by
  cases c with
  | true => exact .invalid
  | false => exact h rfl

/-- A check of the value that both make. -/
theorem AssignAgrees.valid {c : Prop} [Decidable c] {r : Except MatchError (MatchFields α)}
    {r' : c → Except MatchError MatchKeys} (h : ∀ hc, AssignAgrees read fields value r (r' hc)) :
    AssignAgrees read fields value (if c then r else .error .invalid) (if hc : c then r' hc else .error .invalid) := by
  by_cases hc : c
  · rw [if_pos hc, dif_pos hc]
    exact h hc
  · rw [if_neg hc, dif_neg hc]
    exact .invalid

/-- The string a slot holds is set for both. -/
theorem isSome_of_map_eq {slot : Option α} {string : Option Bytes} (h : slot.map read = string) :
    string.isSome = slot.isSome := by
  rw [← h]
  exact Option.isSome_map

/-- The branch for keys that start with `arg` agrees. -/
theorem matchKeysAssignArgAt_agrees (h : fields.map read = keys.fields) (key : Bytes) (value : α) :
    AssignAgrees read fields value (matchKeysAssignArgAt fields key value)
      (matchKeysAssignArg keys key (read value)) := by
  have hnamespace : keys.arg0namespace.isSome = _ := isSome_of_map_eq (congrArg MatchFields.arg0namespace h)
  have hargs : keys.filter.args = fields.args.map (Option.map read) := (congrArg MatchFields.args h).symm
  have hargpaths : keys.filter.argpaths = fields.argpaths.map (Option.map read) :=
    (congrArg MatchFields.argpaths h).symm
  obtain ⟨⟨i, rest⟩, hindex⟩ : ∃ r, argIndex 2 key 0 = r := ⟨_, rfl⟩
  have harg : (argAt keys.filter.args i).isSome = (slotAt fields.args i).isSome :=
    isSome_of_map_eq ((slotAt_map read fields.args i).symm.trans (congrArg (fun f => slotAt f.args i) h))
  have hargpath : (argAt keys.filter.argpaths i).isSome = (slotAt fields.argpaths i).isSome :=
    isSome_of_map_eq ((slotAt_map read fields.argpaths i).symm.trans (congrArg (fun f => slotAt f.argpaths i) h))
  rw [matchKeysAssignArgAt, matchKeysAssignArg, hindex]
  dsimp only
  rw [hnamespace, harg, hargpath]
  refine .guard fun _ => ?_
  by_cases hlarge : 63 < i
  · rw [if_pos hlarge, if_pos hlarge]
    exact .invalid
  rw [if_neg hlarge, if_neg hlarge]
  refine .guard fun _ => ?_
  by_cases hend : rest = []
  · rw [if_pos hend, if_pos hend]
    refine .ok ?_ (writes_slotSet [fields.interface, fields.member, fields.path] _ i value)
    have hset : (slotSet fields.args i value).map (Option.map read) = argSet keys.filter.args i (read value) := by
      rw [map_slotSet, ← hargs]
      rfl
    exact congrArg₂ (fun f args => { f with args := args }) h hset
  rw [if_neg hend, if_neg hend]
  by_cases hpath : rest = lit "path"
  · rw [if_pos hpath, if_pos hpath]
    refine .ok ?_ ?_
    · have hset : (slotSet fields.argpaths i value).map (Option.map read) =
          argSet keys.filter.argpaths i (read value) := by
        rw [map_slotSet, ← hargpaths]
        rfl
      exact congrArg₂ (fun f args => { f with argpaths := args }) h hset
    · exact writes_slotSet (fields.interface :: fields.member :: fields.path :: fields.args)
        [fields.destination, fields.sender, fields.pathNamespace, fields.arg0namespace] i value
  rw [if_neg hpath, if_neg hpath]
  exact .invalid

/-- `match_keys_assign` does the same to references as to the strings they lead to. -/
theorem matchKeysAssignAt_agrees (h : fields.map read = keys.fields) (key : Bytes) (value : α) (allowEavesdrop : Bool) :
    AssignAgrees read fields value (matchKeysAssignAt read fields key value allowEavesdrop)
      (matchKeysAssign keys key (read value) allowEavesdrop) := by
  have htype : keys.filter.type = fields.type := (congrArg MatchFields.type h).symm
  have hsender : keys.sender.isSome = _ := isSome_of_map_eq (congrArg MatchFields.sender h)
  have hdestination : keys.destination.isSome = _ := isSome_of_map_eq (congrArg MatchFields.destination h)
  have hinterface : keys.filter.interface.isSome = _ := isSome_of_map_eq (congrArg MatchFields.interface h)
  have hmember : keys.filter.member.isSome = _ := isSome_of_map_eq (congrArg MatchFields.member h)
  have hpath : keys.filter.path.isSome = _ := isSome_of_map_eq (congrArg MatchFields.path h)
  have hpathNamespace : keys.pathNamespace.isSome = _ := isSome_of_map_eq (congrArg MatchFields.pathNamespace h)
  have harg0namespace : keys.arg0namespace.isSome = _ := isSome_of_map_eq (congrArg MatchFields.arg0namespace h)
  have hargs : (argAt keys.filter.args 0).isSome = (slotAt fields.args 0).isSome :=
    isSome_of_map_eq ((slotAt_map read fields.args 0).symm.trans (congrArg (fun f => slotAt f.args 0) h))
  have hargpaths : (argAt keys.filter.argpaths 0).isSome = (slotAt fields.argpaths 0).isSome :=
    isSome_of_map_eq ((slotAt_map read fields.argpaths 0).symm.trans (congrArg (fun f => slotAt f.argpaths 0) h))
  rw [matchKeysAssignAt, matchKeysAssign]
  by_cases hkey : key = lit "type"
  · rw [if_pos hkey, if_pos hkey, htype]
    refine .guard fun _ => ?_
    cases matchType (read value) with
    | none => exact .invalid
    | some type => exact .ok (congrArg (fun f => { f with type := type }) h) (.refl value _)
  rw [if_neg hkey, if_neg hkey]
  by_cases hkey : key = lit "sender"
  · rw [if_pos hkey, if_pos hkey, hsender]
    refine .guard fun hfree => .valid fun _ => .ok ?_ (writes_behind [_, _, _] _ _ [_] [_, _] _ value)
    -- there was no sender, so there was no id either
    have hnone : fields.filterSender = none := by
      have hsome := Option.not_isSome_iff_eq_none.mp (Bool.eq_false_iff.mp (hsender.trans hfree))
      have hid := keys.senderId
      rw [hsome] at hid
      exact (congrArg MatchFields.filterSender h).trans hid
    rw [hnone, Option.or_none]
    exact congrArg (fun f => { f with filterSender := addressId (read value), sender := some (read value) }) h
  rw [if_neg hkey, if_neg hkey]
  by_cases hkey : key = lit "destination"
  · rw [if_pos hkey, if_pos hkey, hdestination]
    refine .guard fun _ => .valid fun _ => .ok ?_ (writes_behind [_, _, _] _ _ [] [_, _, _] _ value)
    exact congrArg (fun f => { f with destination := some (read value) }) h
  rw [if_neg hkey, if_neg hkey]
  by_cases hkey : key = lit "interface"
  · rw [if_pos hkey, if_pos hkey, hinterface]
    refine .guard fun _ => .valid fun _ => .ok ?_ (writes_slot [] _ _ value)
    exact congrArg (fun f => { f with interface := some (read value) }) h
  rw [if_neg hkey, if_neg hkey]
  by_cases hkey : key = lit "member"
  · rw [if_pos hkey, if_pos hkey, hmember]
    refine .guard fun _ => .valid fun _ => .ok ?_ (writes_slot [_] _ _ value)
    exact congrArg (fun f => { f with member := some (read value) }) h
  rw [if_neg hkey, if_neg hkey]
  by_cases hkey : key = lit "path"
  · rw [if_pos hkey, if_pos hkey, hpath, hpathNamespace]
    refine .guard fun _ => .valid fun _ => .ok ?_ (writes_slot [_, _] _ _ value)
    exact congrArg (fun f => { f with path := some (read value) }) h
  rw [if_neg hkey, if_neg hkey]
  by_cases hkey : key = lit "path_namespace"
  · rw [if_pos hkey, if_pos hkey, hpath, hpathNamespace]
    refine .guard fun _ => .valid fun _ => .ok ?_ (writes_behind [_, _, _] _ _ [_, _] [_] _ value)
    exact congrArg (fun f => { f with pathNamespace := some (read value) }) h
  rw [if_neg hkey, if_neg hkey]
  by_cases hkey : key = lit "eavesdrop"
  · rw [if_pos hkey, if_pos hkey]
    exact .guard fun _ => .guard fun _ => .ok h (.refl value _)
  rw [if_neg hkey, if_neg hkey]
  by_cases hkey : key = lit "arg0namespace"
  · rw [if_pos hkey, if_pos hkey, harg0namespace, hargs, hargpaths]
    refine .guard fun _ => .valid fun _ => .ok ?_ (writes_behind [_, _, _] _ _ [_, _, _] [] _ value)
    exact congrArg (fun f => { f with arg0namespace := some (read value) }) h
  rw [if_neg hkey, if_neg hkey]
  cases stringPrefix key (lit "arg") with
  | none => exact .invalid
  | some rest => exact matchKeysAssignArgAt_agrees h rest value

end Assign

/-! ## Values and what they take -/

section Copy

variable {buffer s rest : Bytes}

/-- Both ways to decode a value agree: it ends within quotes, or the buffer has it with its terminator. It takes
no more than what was read, and is without a terminator as the string is. -/
inductive CopyAgrees (buffer s : Bytes) : Bool × Bytes × Bytes → Except MatchError (Bytes × Bytes) → Prop
  | leftOpen {v : Bytes} (size : v.length ≤ s.length) : CopyAgrees buffer s (true, [], push 0 buffer v) (.error .invalid)
  | value {v rest : Bytes} (size : v.length + rest.length ≤ s.length) (plain : (0 : UInt8) ∉ v)
      (suffix : rest <:+ s) : CopyAgrees buffer s (false, rest, push 0 buffer v) (.ok (v, rest))

/-- Bytes that stand for nothing are skipped. -/
theorem CopyAgrees.skip {r : Bool × Bytes × Bytes} {r' : Except MatchError (Bytes × Bytes)}
    (h : CopyAgrees buffer rest r r') (c : UInt8) : CopyAgrees buffer (c :: rest) r r' := by
  cases h with
  | leftOpen size => exact .leftOpen (Nat.le_succ_of_le size)
  | value size plain suffix => exact .value (Nat.le_succ_of_le size) plain (suffix.trans (List.suffix_cons c rest))

/-- A byte that stands for itself is written first. -/
theorem CopyAgrees.write {c : UInt8} {r : Bool × Bytes × Bytes} {r' : Except MatchError (Bytes × Bytes)}
    (h : CopyAgrees (buffer ++ [c]) rest r r') (hc : c ≠ 0) :
    CopyAgrees buffer (c :: rest) r (r'.map fun r => (c :: r.1, r.2)) := by
  have hpush (v : Bytes) : push 0 (buffer ++ [c]) v = push 0 buffer (c :: v) := List.append_assoc buffer [c] (v ++ [0])
  cases h with
  | leftOpen size =>
    rw [hpush]
    exact .leftOpen (Nat.succ_le_succ size)
  | value size plain suffix =>
    rw [hpush]
    refine .value ?_ ?_ (suffix.trans (List.suffix_cons c rest))
    · rw [List.length_cons, List.length_cons]
      omega
    · exact List.not_mem_cons_of_ne_of_not_mem (Ne.symm hc) plain

/-- `match_copy_value` writes what it decodes. -/
theorem matchCopyValueInto_agrees (hs : (0 : UInt8) ∉ s) (quoted : Bool) (buffer : Bytes) :
    CopyAgrees buffer s (matchCopyValueInto s quoted buffer) (matchCopyValue s quoted) := by
  have hcopied {c : UInt8} {rest : Bytes} (hs : (0 : UInt8) ∉ c :: rest) : c ≠ 0 ∧ (0 : UInt8) ∉ rest :=
    ⟨fun hc => hs (hc ▸ List.mem_cons_self), List.not_mem_of_not_mem_cons hs⟩
  fun_induction matchCopyValueInto s quoted buffer with
  | case1 quoted buffer =>
    cases quoted with
    | true => exact .leftOpen (v := []) (Nat.le_refl 0)
    | false => exact .value (v := []) (Nat.le_refl 0) (by simp) List.nil_suffix
  | case2 rest quoted buffer ih =>
    rw [matchCopyValue_apostrophe]
    exact (ih (hcopied hs).2).skip _
  | case3 c rest quoted buffer hquote hend =>
    obtain ⟨hcomma, hquoted⟩ := Bool.and_eq_true_iff.mp hend
    rw [of_decide_eq_true hcomma, (Bool.not_eq_true' quoted).mp hquoted, matchCopyValue_comma]
    refine .value (v := []) ?_ (by simp) (List.suffix_cons _ rest)
    rw [List.length_nil, List.length_cons]
    omega
  | case4 c quoted buffer hquote hend rest hescape ih =>
    obtain ⟨hbackslash, hquoted⟩ := Bool.and_eq_true_iff.mp hescape
    rw [(Bool.not_eq_true' quoted).mp hquoted] at ih ⊢
    rw [of_decide_eq_true hbackslash, matchCopyValue_escaped]
    exact ((ih (hcopied (hcopied hs).2).2).write (by decide)).skip _
  | case5 c quoted buffer hquote hend d rest hescape hd ih =>
    obtain ⟨hbackslash, hquoted⟩ := Bool.and_eq_true_iff.mp hescape
    rw [(Bool.not_eq_true' quoted).mp hquoted] at ih hend ⊢
    have hplain : c = byte '\\' → (d :: rest).head? ≠ some (byte '\'') := fun _ hhead => hd (Option.some.inj hhead)
    rw [matchCopyValue_plain hquote (by simpa using hend) hplain]
    exact (ih (hcopied hs).2).write (hcopied hs).1
  | case6 c quoted buffer hquote hend rest hescape ih =>
    have hwrite := (ih (hcopied hs).2).write (hcopied hs).1
    cases quoted with
    | true =>
      rw [matchCopyValue_quoted hquote]
      exact hwrite
    | false =>
      have hplain : c = byte '\\' → rest.head? ≠ some (byte '\'') := by
        intro hc hhead
        obtain ⟨rest', hrest⟩ := List.head?_eq_some_iff.mp hhead
        exact hescape _ rest' (by rw [decide_eq_true hc]; rfl) hrest
      rw [matchCopyValue_plain hquote (by simpa using hend) hplain]
      exact hwrite

end Copy

end DbusBroker
