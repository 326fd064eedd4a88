import DbusBroker.Bus.MatchKeys
import DbusBroker.Dbus.ObjectPath

/-!
# Path namespaces

A rule with a path namespace is meant for a place of the object hierarchy and everything below
it. The prefix test of `match_keys_match_metadata` wants a slash behind the namespace, which
is wrong for the root: its string already ends with the slash.
-/

namespace DbusBroker

/-- The prefix test with an excluded delimiter: the string itself, or it with more behind a delimiter. -/
theorem matchStringPrefix_excluded_iff (string pre : Bytes) (delimiter : UInt8) :
    matchStringPrefix (some string) (some pre) delimiter false = true ↔
      ∃ tail, string = pre ++ tail ∧ (tail = [] ∨ tail.head? = some delimiter) := by
  cases htail : stringPrefix string pre with
  | none =>
    refine iff_of_false (by simp [matchStringPrefix, htail]) fun h => ?_
    obtain ⟨tail, htail', -⟩ := h
    rw [(stringPrefix_eq_some_iff string pre tail).mpr htail'] at htail
    cases htail
  | some tail =>
    have hstring := (stringPrefix_eq_some_iff string pre tail).mp htail
    have hmatch : matchStringPrefix (some string) (some pre) delimiter false =
        (tail.isEmpty || tail.head? == some delimiter) := by simp [matchStringPrefix, htail]
    rw [hmatch, Bool.or_eq_true, List.isEmpty_iff, beq_iff_eq]
    constructor
    · intro hend
      exact ⟨tail, hstring, hend⟩
    · intro h
      obtain ⟨tail', htail', hend⟩ := h
      rwa [List.append_cancel_left (hstring.symm.trans htail')]

/-- Where the namespace is not the root, the prefix test follows the hierarchy. -/
theorem matchStringPrefix_path_iff {p : ObjectPath} (hp : p.elements ≠ []) (q : ObjectPath) :
    matchStringPrefix (some q.toBytes) (some p.toBytes) (byte '/') false = true ↔ p.elements <+: q.elements := by
  rw [matchStringPrefix_excluded_iff, ObjectPath.toBytes_of_ne_nil hp]
  constructor
  · intro h
    obtain ⟨tail, hq, htail⟩ := h
    by_cases hroot : q.elements = []
    · -- the root has no elements, and one element is longer than its string
      cases hes : p.elements with
      | nil => exact absurd hes hp
      | cons e es =>
        rw [ObjectPath.toBytes, if_pos hroot, hes, slashed_cons, List.cons_append, List.cons.injEq] at hq
        have hnil := List.append_eq_nil_iff.mp (List.append_eq_nil_iff.mp hq.2.symm).1
        exact absurd hnil.1 (p.valid e (hes ▸ List.mem_cons_self)).1
    · rw [ObjectPath.toBytes_of_ne_nil hroot] at hq
      obtain ⟨rest, hrest, -⟩ := exists_of_slashed_append p.valid q.valid htail hq
      exact ⟨rest, hrest.symm⟩
  · intro h
    obtain ⟨rest, hrest⟩ := h
    have hq : q.elements ≠ [] := fun hnil => hp (List.append_eq_nil_iff.mp (hrest.trans hnil)).1
    refine ⟨slashed rest, by rw [ObjectPath.toBytes_of_ne_nil hq, ← hrest, slashed_append], ?_⟩
    cases rest with
    | nil => exact .inl rfl
    | cons e rest => exact .inr rfl

/-- Where the namespace is the root, the prefix test accepts nothing but the root. -/
theorem matchStringPrefix_root_iff (q : ObjectPath) :
    matchStringPrefix (some q.toBytes) (some (lit "/")) (byte '/') false = true ↔ q.toBytes = lit "/" := by
  rw [matchStringPrefix_excluded_iff]
  constructor
  · intro h
    obtain ⟨tail, hq, htail⟩ := h
    cases tail with
    | nil => rw [hq, List.append_nil]
    | cons c tail =>
      have hc : c = byte '/' := by simpa using htail
      by_cases hroot : q.elements = []
      · exact if_pos hroot
      · -- behind the first slash stands an element, and no second slash
        rw [ObjectPath.toBytes_of_ne_nil hroot] at hq
        cases hes : q.elements with
        | nil => exact absurd hes hroot
        | cons e es =>
          obtain ⟨hne, he⟩ := q.valid e (hes ▸ List.mem_cons_self)
          rw [hes, slashed_cons] at hq
          have hq' : e ++ slashed es = c :: tail := (List.cons.inj hq).2
          cases e with
          | nil => exact absurd rfl hne
          | cons d e =>
            have hd : d = c := (List.cons.inj hq').1
            exact absurd (hd.trans hc) (ne_slash_of_isPathByte (he d List.mem_cons_self))
  · intro h
    exact ⟨[], by rw [h, List.append_nil], .inl rfl⟩

/-- A place is another one or below it when its elements start with those of the other. -/
theorem eq_or_pathBelow_iff (p q : ObjectPath) :
    (q.toBytes = p.toBytes ∨ PathBelow p.toBytes q.toBytes) ↔ p.elements <+: q.elements := by
  constructor
  · intro h
    obtain heq | hbelow := h
    · exact (ObjectPath.elements_eq_of_toBytes_eq heq).symm ▸ List.prefix_refl p.elements
    · obtain ⟨p', q', hp, hq, e, rest, hrest⟩ := hbelow
      rw [ObjectPath.elements_eq_of_toBytes_eq hp, ObjectPath.elements_eq_of_toBytes_eq hq] at hrest
      exact ⟨e :: rest, hrest.symm⟩
  · intro h
    obtain ⟨rest, hrest⟩ := h
    cases rest with
    | nil =>
      rw [List.append_nil] at hrest
      exact .inl (by rw [ObjectPath.toBytes, ObjectPath.toBytes, hrest])
    | cons e rest => exact .inr ⟨p, q, rfl, rfl, e, rest, hrest.symm⟩

/-- A rule with nothing but a path namespace looks at the path of a message. -/
theorem matchKeysMatchMetadata_of_pathNamespace {keys : MatchKeys} (hfilter : keys.filter = matchKeysNull.filter)
    (hnamespace : keys.pathNamespace.isSome) (harg0 : keys.arg0namespace = none) (metadata : MessageMetadata) :
    matchKeysMatchMetadata keys metadata =
      matchStringPrefix metadata.path keys.pathNamespace (byte '/') false := by
  have hsome : keys.pathNamespace.isNone = false := by simpa using hnamespace
  simp [matchKeysMatchMetadata, hfilter, hsome, harg0, matchKeysNull]

/-- A rule with nothing but a path namespace matches a path exactly if it is the namespace or below
it, unless the namespace is the root and the path is not; it matches no message without a path. -/
theorem matchKeysMatchMetadata_pathNamespace {keys : MatchKeys} {top : Bytes} (htop : keys.pathNamespace = some top)
    (hfilter : keys.filter = matchKeysNull.filter) (harg0 : keys.arg0namespace = none) (metadata : MessageMetadata) :
    (∀ path, metadata.path = some path → cDvarIsPath path = true →
      ((matchKeysMatchMetadata keys metadata = true ↔ path = top ∨ PathBelow top path) ↔
        (top = lit "/" → path = lit "/"))) ∧
    (metadata.path = none → matchKeysMatchMetadata keys metadata = false) := by
  rw [matchKeysMatchMetadata_of_pathNamespace hfilter (Option.isSome_of_eq_some htop) harg0, htop]
  refine ⟨fun path hpath hvalid => ?_, fun hpath => by rw [hpath]; rfl⟩
  obtain ⟨q, rfl⟩ := (cDvarIsPath_iff path).mp hvalid
  obtain ⟨p, rfl⟩ := (cDvarIsPath_iff top).mp (keys.pathNamespaceValid top htop)
  rw [hpath, eq_or_pathBelow_iff]
  by_cases hp : p.elements = []
  · have hroot : p.toBytes = lit "/" := if_pos hp
    have hbelow : p.elements <+: q.elements := by rw [hp]; exact List.nil_prefix
    rw [hroot, matchStringPrefix_root_iff, iff_true_right hbelow]
    exact ⟨fun h _ => h, fun h => h rfl⟩
  · have hroot : p.toBytes ≠ lit "/" := fun heq =>
      hp (ObjectPath.elements_eq_of_toBytes_eq (heq.trans ObjectPath.toBytes_root.symm))
    exact iff_of_true (matchStringPrefix_path_iff hp q) fun h => absurd h hroot

theorem cDvarIsPath_of_mem_some {top : Bytes} (h : cDvarIsPath top = true) : ∀ s ∈ some top, cDvarIsPath s = true :=
  fun _ hs => Option.some.inj hs ▸ h

/-- The keys of a rule with nothing but a path namespace. -/
def namespaceKeys (top : Bytes) (h : cDvarIsPath top = true) : MatchKeys :=
  { matchKeysNull with
    pathNamespace := some top
    pathNamespaceValid := cDvarIsPath_of_mem_some h }

/-- The rule is accepted, the path is below the root, and the rule does not match it. -/
theorem rootNamespace_misses :
    matchKeysNew (lit "path_namespace='/'") false = .ok (namespaceKeys (lit "/") (by decide)) ∧
      cDvarIsPath (lit "/org") = true ∧ PathBelow (lit "/") (lit "/org") ∧
      matchKeysMatchMetadata (namespaceKeys (lit "/") (by decide))
        ⟨4, 0, 1, none, some (lit "/org"), none, none, none, 0, none, []⟩ = false :=
  ⟨by decide +kernel, by decide, ⟨.root, ⟨[lit "org"], by decide +kernel⟩, rfl, by decide, lit "org", [], rfl⟩, by decide +kernel⟩

/-- The namespace of an object that is not the root. -/
theorem pathNamespace_org :
    (matchKeysMatchMetadata (namespaceKeys (lit "/org") (by decide))
        ⟨4, 0, 1, none, some (lit "/org/a"), none, none, none, 0, none, []⟩ = true ↔
      lit "/org/a" = lit "/org" ∨ PathBelow (lit "/org") (lit "/org/a")) ↔
        (lit "/org" = lit "/" → lit "/org/a" = lit "/") :=
  (@matchKeysMatchMetadata_pathNamespace (namespaceKeys (lit "/org") (by decide)) (lit "/org") rfl rfl rfl _).1
    (lit "/org/a") rfl (by decide)

end DbusBroker
