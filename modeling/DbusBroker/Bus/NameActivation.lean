import DbusBroker.Bus.Activation
import DbusBroker.Bus.NameRun

/-!
# The activation of a name

The operations on owners and references leave the activation of a name alone. Only a name
that vanishes loses it, and a name that is referred to by its activation does not vanish.
-/

namespace DbusBroker

open Std

section Kept

variable {ο : Type}

/-- The path of the activation of a name. -/
def nameActivation (w : NameRegistry ο) (name : Bytes) : Option Bytes := (w.nameTree.find? name).bind (·.activation)

/-- Every name that is there was there before, with the same activation. -/
def Fades (w w' : NameRegistry ο) : Prop :=
  ∀ n y', w'.nameTree.find? n = some y' → ∃ y, w.nameTree.find? n = some y ∧ y'.activation = y.activation

/-- Every name that is there has the activation it had before. -/
def ActivationKept (w w' : NameRegistry ο) : Prop :=
  ∀ n y', w'.nameTree.find? n = some y' → y'.activation = nameActivation w n

variable {w w' w'' : NameRegistry ο} {n : Bytes} {y : Name}

/-- Nothing fades. -/
theorem Fades.refl (w : NameRegistry ο) : Fades w w := fun _ y' hy' => ⟨y', hy', rfl⟩

/-- Names fade one after the other. -/
theorem Fades.trans (h : Fades w w') (h' : Fades w' w'') : Fades w w'' := by
  intro n y'' hy''
  obtain ⟨y', hy', heq'⟩ := h' n y'' hy''
  obtain ⟨y, hy, heq⟩ := h n y' hy'
  exact ⟨y, hy, heq'.trans heq⟩

/-- The names do not change. -/
theorem Fades.of_eq (h : w'.nameTree = w.nameTree) : Fades w w' := by
  intro n y' hy'
  rw [h] at hy'
  exact ⟨y', hy', rfl⟩

/-- Names that faded kept their activation. -/
theorem Fades.kept (h : Fades w w') : ActivationKept w w' := by
  intro n y' hy'
  obtain ⟨y, hy, heq⟩ := h n y' hy'
  rw [nameActivation, hy, heq]
  rfl

/-- What fades after the activations were kept. -/
theorem ActivationKept.fades (h : ActivationKept w w') (h' : Fades w' w'') : ActivationKept w w'' := by
  intro n y'' hy''
  obtain ⟨y', hy', heq⟩ := h' n y'' hy''
  rw [heq, h n y' hy']

/-- Writing back a name with its activation. -/
theorem fades_setName (hy : w.nameTree.find? n = some y) {z : Name} (hz : z.activation = y.activation) :
    Fades w (w.setName n z) := by
  intro m y' hy'
  have hfind : (w.nameTree.insert n z).find? m = some y' := hy'
  rw [SearchTree.find?_insert] at hfind
  split at hfind
  · next hm =>
    subst hm
    rw [← Option.some.inj hfind]
    exact ⟨y, hy, hz⟩
  · exact ⟨y', hfind, rfl⟩

/-- A name is freed. -/
theorem fades_nameFree (idle : Bytes → Bool) (w : NameRegistry ο) (n : Bytes) (y : Name) :
    Fades w (nameFree idle w n y) := by
  intro m y' hy'
  have hfind : (w.nameTree.erase n).find? m = some y' := hy'
  rw [SearchTree.find?_erase] at hfind
  split at hfind
  · cases hfind
  · exact ⟨y', hfind, rfl⟩

/-- `name_ref`. -/
theorem fades_nameRef (w : NameRegistry ο) (n : Bytes) : Fades w (nameRef w n) := by
  rw [nameRef]
  split
  · next x hx =>
    have hx : (w.check (0 < x.nRefs)).nameTree.find? n = some x := hx
    exact Fades.trans (Fades.of_eq rfl) (fades_setName hx rfl)
  · exact Fades.of_eq rfl

/-- `name_unref`. -/
theorem fades_nameUnref (idle : Bytes → Bool) (w : NameRegistry ο) (n : Bytes) : Fades w (nameUnref idle w n) := by
  rw [nameUnref]
  split
  · next x hx =>
    split
    · exact fades_nameFree idle w n x
    · have hx : (w.check (0 < x.nRefs)).nameTree.find? n = some x := hx
      exact Fades.trans (Fades.of_eq rfl) (fades_setName hx rfl)
  · exact Fades.of_eq rfl

/-- Rewriting a queue. -/
theorem fades_setOwnershipList (w : NameRegistry ο) (n : Bytes) (l : List ℕ) : Fades w (w.setOwnershipList n l) := by
  rw [NameRegistry.setOwnershipList]
  split
  · next x hx => exact fades_setName hx rfl
  · exact Fades.of_eq rfl

/-- `name_registry_ref_name` keeps the activations. -/
theorem activationKept_nameRegistryRefName (w : NameRegistry ο) (n : Bytes) :
    ActivationKept w (nameRegistryRefName w n) := by
  rw [nameRegistryRefName]
  split
  · exact (fades_nameRef w n).kept
  · next hnone =>
    intro m y' hy'
    have hfind : (w.nameTree.insert n .init).find? m = some y' := hy'
    rw [SearchTree.find?_insert] at hfind
    split at hfind
    · next hm =>
      subst hm
      rw [← Option.some.inj hfind, nameActivation, hnone]
      rfl
    · rw [nameActivation, hfind]
      rfl

/-- Writing an ownership. -/
theorem fades_setOwnership (w : NameRegistry ο) (id : ℕ) (o : NameOwnership ο) : Fades w (w.setOwnership id o) :=
  Fades.of_eq rfl

variable [DecidableEq ο]

/-- Linking an ownership. -/
theorem fades_nameOwnershipLink (w : NameRegistry ο) (owner : ο) (name : Bytes) (id : ℕ) :
    Fades w (nameOwnershipLink w owner name id) := Fades.of_eq rfl

/-- Counting a new primary owner. -/
theorem fades_addPrimary (w : NameRegistry ο) (o : ο) : Fades w (w.addPrimary o) := Fades.of_eq rfl

/-- Counting a replaced primary owner. -/
theorem fades_replacePrimary (w : NameRegistry ο) (old new : ο) : Fades w (w.replacePrimary old new) :=
  Fades.of_eq rfl

/-- `name_ownership_free`. -/
theorem fades_nameOwnershipFree (idle : Bytes → Bool) (users : UserRegistry) (w : NameRegistry ο) (id : ℕ) :
    Fades w (nameOwnershipFree idle users w id).2 := by
  rw [nameOwnershipFree]
  split
  · exact Fades.of_eq rfl
  · next o ho =>
    have hunref : ∀ w' : NameRegistry ο, w'.nameTree = w.nameTree →
        Fades w { nameUnref idle w' o.name with ownerships := (nameUnref idle w' o.name).ownerships.erase id } :=
      fun w' hw' => Fades.trans (Fades.trans (Fades.of_eq hw') (fades_nameUnref idle w' o.name)) (Fades.of_eq rfl)
    dsimp only
    split
    · exact hunref _ rfl
    · exact hunref _ rfl

/-- `name_ownership_release`. -/
theorem fades_nameOwnershipRelease (idle : Bytes → Bool) (users : UserRegistry) (w : NameRegistry ο) (id : ℕ) :
    Fades w (nameOwnershipRelease idle users w id).2.1 := by
  rw [nameOwnershipRelease]
  split
  · exact Fades.of_eq rfl
  · next o ho =>
    have hlist := fades_setOwnershipList w o.name ((w.ownershipList o.name).erase id)
    dsimp only
    split_ifs
    · have href : Fades w (nameRef ((w.setOwnershipList o.name ((w.ownershipList o.name).erase id)).dropPrimary o.owner)
          o.name) := hlist.trans (Fades.trans (Fades.of_eq rfl) (fades_nameRef _ o.name))
      refine Fades.trans ?_ (fades_nameOwnershipFree idle users _ id)
      split
      · exact href.trans (Fades.of_eq rfl)
      · exact href
    · exact hlist.trans (fades_nameOwnershipFree idle users _ id)

/-- `name_ownership_update`. -/
theorem fades_nameOwnershipUpdate (idle : Bytes → Bool) (users : UserRegistry) (w : NameRegistry ο) (id : ℕ)
    (flags : UInt32) : Fades w (nameOwnershipUpdate idle users w id flags).2.1 := by
  rw [nameOwnershipUpdate]
  split
  · exact Fades.of_eq rfl
  · next o ho =>
    have hflags := fades_setOwnership w id { o with flags := flags }
    have href := hflags.trans (fades_nameRef _ o.name)
    have hfirst := fun l => href.trans (fades_setOwnershipList _ o.name l)
    dsimp only
    split
    · have hchecked (w₁ : NameRegistry ο) (c : Bool) : Fades w₁ (w₁.check c) := Fades.of_eq rfl
      exact ((href.trans (hchecked _ _)).trans (fades_setOwnershipList _ o.name _)).trans (fades_addPrimary _ o.owner)
    · split_ifs
      · exact hflags
      · refine Fades.trans ?_ (fades_nameOwnershipFree idle users _ _)
        exact ((hfirst _).trans (fades_replacePrimary _ _ o.owner)).trans (fades_setOwnershipList _ o.name _)
      · exact (hfirst _).trans (fades_replacePrimary _ _ o.owner)
      · exact hflags
      · exact hflags.trans (fades_setOwnershipList _ o.name _)
      · exact hflags.trans (fades_setOwnershipList _ o.name _)

/-- The end of `name_registry_request_name`. -/
theorem fades_nameRegistryRequestUpdate (idle : Bytes → Bool) (users : UserRegistry) (w : NameRegistry ο) (name : Bytes)
    (id : ℕ) (flags : UInt32) : Fades w (nameRegistryRequestUpdate idle users w name id flags).2.1 := by
  have hupdate := fades_nameOwnershipUpdate idle users w id flags
  rw [nameRegistryRequestUpdate]
  refine Fades.trans ?_ (fades_nameUnref idle _ name)
  split_ifs
  · exact hupdate
  · exact hupdate.trans (fades_nameOwnershipFree idle _ _ id)

/-- `name_ownership_new`. -/
theorem fades_nameOwnershipNew (idle : Bytes → Bool) (users : UserRegistry) (w : NameRegistry ο) (owner : ο)
    (user : Option Uid) (name : Bytes) : Fades w (nameOwnershipNew idle users w owner user name).2.1 := by
  have href : Fades w (nameRef { w with nextOwnership := w.nextOwnership + 1 } name) :=
    Fades.trans (Fades.of_eq rfl) (fades_nameRef _ name)
  rw [nameOwnershipNew]
  dsimp only
  split
  · exact href.trans (fades_setOwnership _ _ _)
  · exact (href.trans (fades_setOwnership _ _ _)).trans (fades_nameOwnershipFree idle _ _ _)

/-- `name_registry_request_name` keeps the activations. -/
theorem activationKept_nameRegistryRequestName (idle : Bytes → Bool) (users : UserRegistry) (w : NameRegistry ο)
    (owner : ο) (user : Option Uid) (name : Bytes) (flags : UInt32) :
    ActivationKept w (nameRegistryRequestName idle users w owner user name flags).2.1 := by
  refine (activationKept_nameRegistryRefName w name).fades ?_
  rw [nameRegistryRequestName]
  split
  · exact fades_nameRegistryRequestUpdate idle users _ name _ flags
  · have hnew := fades_nameOwnershipNew idle users (nameRegistryRefName w name) owner user name
    split
    · next heq =>
      rw [heq] at hnew
      exact hnew.trans (fades_nameUnref idle _ name)
    · next heq =>
      rw [heq] at hnew
      exact (hnew.trans (fades_nameOwnershipLink _ owner name _)).trans
        (fades_nameRegistryRequestUpdate idle _ _ name _ flags)

/-- `name_registry_release_name`. -/
theorem fades_nameRegistryReleaseName (idle : Bytes → Bool) (users : UserRegistry) (w : NameRegistry ο) (owner : ο)
    (name : Bytes) : Fades w (nameRegistryReleaseName idle users w owner name).2.1 := by
  rw [nameRegistryReleaseName]
  split
  · exact Fades.refl w
  · split
    · exact Fades.refl w
    · exact fades_nameOwnershipRelease idle users w _

end Kept

end DbusBroker
