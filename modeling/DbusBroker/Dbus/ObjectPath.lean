import DbusBroker.Dbus.Protocol

/-!
# Object paths

An object path is a place in a hierarchy, given by the elements on the way from the root. The
validator of the `c-dvar` library accepts exactly the strings of such places, and the string
of a place determines its elements.
-/

namespace DbusBroker

/-- A byte of an element of an object path. -/
def isPathByte (c : UInt8) : Bool := isLetter c || isDigit c || c = byte '_'

/-- A place in the hierarchy of objects. -/
structure ObjectPath where
  elements : List Bytes
  valid : ∀ e ∈ elements, e ≠ [] ∧ ∀ c ∈ e, isPathByte c = true

/-- Elements with a slash in front of each. -/
def slashed (elements : List Bytes) : Bytes := elements.flatMap (byte '/' :: ·)

/-- The string of a place. Only the root ends with a slash. -/
def ObjectPath.toBytes (p : ObjectPath) : Bytes := if p.elements = [] then [byte '/'] else slashed p.elements

/-- A place below another one, given by their strings. -/
def PathBelow (top path : Bytes) : Prop :=
  ∃ p q : ObjectPath, p.toBytes = top ∧ q.toBytes = path ∧ ∃ e rest, q.elements = p.elements ++ e :: rest

section Slashed

variable {e e' : Bytes} {es es' : List Bytes} {c : UInt8}

@[simp] theorem slashed_nil : slashed [] = [] := rfl

@[simp] theorem slashed_cons (e : Bytes) (es : List Bytes) : slashed (e :: es) = byte '/' :: (e ++ slashed es) := rfl

@[simp] theorem slashed_append (es es' : List Bytes) : slashed (es ++ es') = slashed es ++ slashed es' :=
  List.flatMap_append

/-- The slash is not part of an element. -/
theorem ne_slash_of_isPathByte (h : isPathByte c = true) : c ≠ byte '/' := by
  intro heq
  rw [heq] at h
  exact absurd h (by decide)

/-- An element is what comes before the next slash. -/
theorem takeWhile_slashed (he : ∀ c ∈ e, isPathByte c = true) (es : List Bytes) :
    (e ++ slashed es).takeWhile (fun c => c ≠ byte '/') = e := by
  rw [List.takeWhile_append_of_pos fun c hc => decide_eq_true (ne_slash_of_isPathByte (he c hc))]
  cases es with
  | nil => exact List.append_nil e
  | cons f fs =>
    rw [slashed_cons, List.takeWhile_cons_of_neg (by simp), List.append_nil]

end Slashed

section Elements

variable {es es' : List Bytes}

/-- Elements of a path, none of them empty. -/
def PathElements (es : List Bytes) : Prop := ∀ e ∈ es, e ≠ [] ∧ ∀ c ∈ e, isPathByte c = true

/-- What follows the elements of a higher place in the string of a place starts with a slash. -/
theorem exists_of_slashed_append {tail : Bytes} (hes : PathElements es) (hes' : PathElements es')
    (htail : tail = [] ∨ tail.head? = some (byte '/')) (h : slashed es' = slashed es ++ tail) :
    ∃ rest, es' = es ++ rest ∧ tail = slashed rest := by
  induction es generalizing es' with
  | nil => exact ⟨es', rfl, h.symm⟩
  | cons e es ih =>
    cases es' with
    | nil => cases h
    | cons e' es' =>
      rw [slashed_cons, slashed_cons, List.cons_append, List.cons.injEq, List.append_assoc] at h
      have he := (hes e List.mem_cons_self).2
      have he' := (hes' e' List.mem_cons_self).2
      -- the tail stands where more elements could stand, so it does not matter for the first one
      have hfirst : (e ++ (slashed es ++ tail)).takeWhile (fun c => c ≠ byte '/') = e := by
        rw [List.takeWhile_append_of_pos fun c hc => decide_eq_true (ne_slash_of_isPathByte (he c hc))]
        have hstop : (slashed es ++ tail).takeWhile (fun c => c ≠ byte '/') = [] := by
          cases es with
          | cons f fs => rw [slashed_cons, List.cons_append, List.takeWhile_cons_of_neg (by simp)]
          | nil =>
            cases tail with
            | nil => rfl
            | cons c tail =>
              have hc : c = byte '/' := by simpa using htail
              rw [hc, slashed_nil, List.nil_append, List.takeWhile_cons_of_neg (by simp)]
        rw [hstop, List.append_nil]
      have heq : e' = e := by rw [← takeWhile_slashed he' es', h.2, hfirst]
      rw [heq, List.append_cancel_left_eq] at h
      obtain ⟨rest, hrest, htail'⟩ := ih (fun x hx => hes x (List.mem_cons_of_mem e hx))
        (fun x hx => hes' x (List.mem_cons_of_mem e' hx)) h.2
      exact ⟨rest, by rw [heq, hrest, List.cons_append], htail'⟩

/-- The string of some elements determines them. -/
theorem slashed_inj (hes : PathElements es) (hes' : PathElements es') (h : slashed es' = slashed es) : es' = es := by
  obtain ⟨rest, hrest, hnil⟩ := exists_of_slashed_append hes hes' (.inl rfl) (h.trans (List.append_nil _).symm)
  cases rest with
  | nil => rw [hrest, List.append_nil]
  | cons e rest => cases hnil

/-- What the loop of the validator accepts: an element, which is not empty behind a slash, and
more elements behind it. -/
def PathRest (slash : Bool) (rest : Bytes) : Prop :=
  ∃ e es, (slash = true → e ≠ []) ∧ (∀ c ∈ e, isPathByte c = true) ∧ PathElements es ∧ rest = e ++ slashed es

/-- The rest of a path that starts with a slash. -/
theorem pathRest_slash (slash : Bool) (rest : Bytes) :
    PathRest slash (byte '/' :: rest) ↔ slash = false ∧ PathRest true rest := by
  constructor
  · intro hrest
    obtain ⟨e, es, hslash, he, hes, heq⟩ := hrest
    cases e with
    | cons c e =>
      rw [List.cons_append, List.cons.injEq] at heq
      exact absurd heq.1.symm (ne_slash_of_isPathByte (he c List.mem_cons_self))
    | nil =>
      refine ⟨Bool.eq_false_iff.mpr fun h => hslash h rfl, ?_⟩
      cases es with
      | nil => cases heq
      | cons f fs =>
        rw [List.nil_append, slashed_cons, List.cons.injEq] at heq
        have hf := hes f List.mem_cons_self
        exact ⟨f, fs, fun _ => hf.1, hf.2, fun x hx => hes x (List.mem_cons_of_mem f hx), heq.2⟩
  · intro hrest
    obtain ⟨hslash, e, es, hne, he, hes, heq⟩ := hrest
    refine ⟨[], e :: es, fun h => absurd (h.symm.trans hslash) (by decide), by simp, ?_, ?_⟩
    · intro x hx
      cases hx with
      | head => exact ⟨hne rfl, he⟩
      | tail _ hx => exact hes x hx
    · rw [heq, List.nil_append, slashed_cons]

/-- The rest of a path that starts with a byte of an element. -/
theorem pathRest_byte {c : UInt8} (hc : isPathByte c = true) (slash : Bool) (rest : Bytes) :
    PathRest slash (c :: rest) ↔ PathRest false rest := by
  constructor
  · intro hrest
    obtain ⟨e, es, -, he, hes, heq⟩ := hrest
    cases e with
    | nil =>
      cases es with
      | nil => cases heq
      | cons f fs =>
        rw [List.nil_append, slashed_cons, List.cons.injEq] at heq
        exact absurd heq.1 (ne_slash_of_isPathByte hc)
    | cons d e =>
      rw [List.cons_append, List.cons.injEq] at heq
      exact ⟨e, es, by simp, fun x hx => he x (List.mem_cons_of_mem d hx), hes, heq.2⟩
  · intro hrest
    obtain ⟨e, es, -, he, hes, heq⟩ := hrest
    refine ⟨c :: e, es, by simp, ?_, hes, by rw [heq, List.cons_append]⟩
    intro x hx
    cases hx with
    | head => exact hc
    | tail _ hx => exact he x hx

/-- No other byte may stand in a path. -/
theorem not_pathRest {c : UInt8} (hslash : c ≠ byte '/') (hc : isPathByte c = false) (slash : Bool) (rest : Bytes) :
    ¬PathRest slash (c :: rest) := by
  intro hrest
  obtain ⟨e, es, -, he, -, heq⟩ := hrest
  cases e with
  | nil =>
    cases es with
    | nil => cases heq
    | cons f fs =>
      rw [List.nil_append, slashed_cons, List.cons.injEq] at heq
      exact hslash heq.1
  | cons d e =>
    rw [List.cons_append, List.cons.injEq] at heq
    exact absurd ((heq.1 ▸ hc).symm.trans (he d List.mem_cons_self)) (by decide)

/-- The loop of the validator ends outside a slash exactly on the rest of a path. -/
theorem validatePath_eq_false_iff (rest : Bytes) (slash : Bool) :
    validatePath rest slash = some false ↔ PathRest slash rest := by
  induction rest generalizing slash with
  | nil =>
    rw [validatePath, Option.some.injEq]
    constructor
    · intro hslash
      exact ⟨[], [], fun h => absurd (h.symm.trans hslash) (by decide), by simp, by simp [PathElements], rfl⟩
    · intro hrest
      obtain ⟨e, es, hne, -, -, heq⟩ := hrest
      exact Bool.eq_false_iff.mpr fun h => hne h (List.append_eq_nil_iff.mp heq.symm).1
  | cons c rest ih =>
    rw [validatePath]
    by_cases hc : c = byte '/'
    · rw [if_pos hc, hc, pathRest_slash]
      cases slash with
      | true => simp
      | false => simpa using ih true
    · rw [if_neg hc]
      change (if isPathByte c = true then validatePath rest false else none) = some false ↔ _
      cases hbyte : isPathByte c with
      | true => rw [if_pos rfl, ih, pathRest_byte hbyte]
      | false => exact iff_of_false (by simp) (not_pathRest hc hbyte slash rest)

end Elements

namespace ObjectPath

/-- The root of the hierarchy. -/
def root : ObjectPath := ⟨[], by simp⟩

theorem toBytes_root : root.toBytes = lit "/" := rfl

/-- The string of a place that is not the root. -/
theorem toBytes_of_ne_nil {p : ObjectPath} (h : p.elements ≠ []) : p.toBytes = slashed p.elements := if_neg h

/-- The string of a place determines the place. -/
theorem elements_eq_of_toBytes_eq {p q : ObjectPath} (h : q.toBytes = p.toBytes) : q.elements = p.elements := by
  -- the single slash of the root is not the string of elements
  have hroot (p : ObjectPath) (hp : p.elements ≠ []) : slashed p.elements ≠ [byte '/'] := by
    intro heq
    cases hes : p.elements with
    | nil => exact hp hes
    | cons e es =>
      rw [hes, slashed_cons, List.cons.injEq, List.append_eq_nil_iff] at heq
      exact (p.valid e (hes ▸ List.mem_cons_self)).1 heq.2.1
  rw [toBytes, toBytes] at h
  by_cases hp : p.elements = []
  · by_cases hq : q.elements = []
    · rw [hp, hq]
    · rw [if_pos hp, if_neg hq] at h
      exact absurd h (hroot q hq)
  · by_cases hq : q.elements = []
    · rw [if_neg hp, if_pos hq] at h
      exact absurd h.symm (hroot p hp)
    · rw [if_neg hp, if_neg hq] at h
      exact slashed_inj p.valid q.valid h

end ObjectPath

/-- The validator accepts exactly the strings of the places of the hierarchy. -/
theorem cDvarIsPath_iff (path : Bytes) : cDvarIsPath path = true ↔ ∃ p : ObjectPath, p.toBytes = path := by
  have helements {e : Bytes} {es : List Bytes} (hne : e ≠ []) (he : ∀ c ∈ e, isPathByte c = true)
      (hes : PathElements es) : PathElements (e :: es) := by
    intro x hx
    cases hx with
    | head => exact ⟨hne, he⟩
    | tail _ hx => exact hes x hx
  constructor
  · intro h
    cases path with
    | nil => cases h
    | cons c rest =>
      rw [cDvarIsPath] at h
      split at h
      case isFalse => cases h
      case isTrue hc =>
        cases rest with
        | nil => exact ⟨.root, by rw [hc]; rfl⟩
        | cons d rest =>
          cases hloop : validatePath (d :: rest) true with
          | none => simp [hloop] at h
          | some slash =>
            rw [hloop] at h
            have hslash : slash = false := by simpa using h
            rw [hslash, validatePath_eq_false_iff] at hloop
            obtain ⟨e, es, hne, he, hes, heq⟩ := hloop
            exact ⟨⟨e :: es, helements (hne rfl) he hes⟩, by rw [hc, heq]; rfl⟩
  · intro h
    obtain ⟨p, rfl⟩ := h
    cases hes : p.elements with
    | nil => rw [ObjectPath.toBytes, if_pos hes]; decide
    | cons e es =>
      have he := p.valid e (hes ▸ List.mem_cons_self)
      have hrest : validatePath (e ++ slashed es) true = some false :=
        (validatePath_eq_false_iff _ _).mpr
          ⟨e, es, fun _ => he.1, he.2, fun x hx => p.valid x (hes ▸ List.mem_cons_of_mem e hx), rfl⟩
      rw [ObjectPath.toBytes, hes, if_neg (List.cons_ne_nil e es), slashed_cons, cDvarIsPath, if_pos rfl, hrest]
      rfl

end DbusBroker
