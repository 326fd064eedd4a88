import DbusBroker.Bus.OrderRules

/-!
# Names, activations and replies keep the bus in order
-/

namespace DbusBroker

open Std

section Names

variable {x : Aux} {c : Core} {w' : NameRegistry ℕ} {n : Bytes} {q : OwnerQueue ℕ} {pins : ℕ} {path : Bytes}
  {a : Activation}

/-- Another hold on one name changes the references on this name only. -/
theorem Core.pins_update (c : Core) (held : Bytes → ℕ) (n : Bytes) (pins : ℕ) :
    Function.update (c.pins held) n (c.pins (Function.update held n pins) n) = c.pins (Function.update held n pins) := by
  funext m
  by_cases hm : m = n
  · rw [hm, Function.update_self]
  · rw [Function.update_of_ne hm]
    show _ + _ + held m = _ + _ + Function.update held n pins m
    rw [Function.update_of_ne hm]

/-- An activation refers to its name. -/
theorem Core.pins_pos (hfind : c.activations.find? path = some a) (held : Bytes → ℕ) : 0 < c.pins held a.name := by
  have htotal := c.activations.total_erase_of_find?_some (fun _ b => b.pins a.name) hfind
  have hpins : 1 ≤ a.pins a.name := by
    rw [Activation.pins, if_pos rfl]
    exact Nat.le_add_right 1 _
  show 0 < _ + c.activations.total (fun _ b => b.pins a.name) + _
  omega

/-- The activations of the names after something happened to one name. -/
theorem Good.nameActivation_eq (h : Good x c) {held : Bytes → ℕ} (heffect : NameEffect c.names w' n (c.pins held n) q)
    (hkept : ActivationKept c.names w') (m : Bytes) : nameActivation w' m = nameActivation c.names m := by
  cases hfind : w'.nameTree.find? m with
  | some y' =>
    rw [nameActivation, hfind]
    exact hkept m y' hfind
  | none =>
    have hgone : nameActivation w' m = none := by
      rw [nameActivation, hfind]
      rfl
    rw [hgone]
    by_cases hm : m = n
    · subst hm
      cases hactivation : nameActivation c.names m with
      | none => rfl
      | some path =>
        -- the reference of its activation keeps the name alive
        obtain ⟨a, ha, rfl⟩ := h.activations.forth m path hactivation
        obtain ⟨y, hy⟩ := heffect.books.exists_name (Core.pins_pos ha held)
        rw [hfind] at hy
        cases hy
    · rw [nameActivation, ← heffect.only.names m hm, hfind]
      rfl

/-- Something happens to the queue or to the references of a name. -/
theorem Good.setNames (h : Good x c) {busy : Option Bytes}
    (heffect : NameEffect c.names w' n (c.pins (Function.update x.held n pins) n) q)
    (hpatient : q.Patient) (hkept : ActivationKept c.names w')
    (howners : ∀ a ∈ q.owners, a ∈ (nameQueue c.names n).owners ∨ c.isRegistered a = true)
    (hbusy : busy = x.busy ∨ x.busy = none)
    (hactivated : q.primary ≠ none → (nameQueue c.names n).primary ≠ none ∨ nameActivation c.names n = none ∨
      busy = nameActivation c.names n) :
    Good { x with held := Function.update x.held n pins, busy := busy } { c with names := w' } := by
  have hqueue := NameWorld.nameQueue_effect h.names heffect
  have hactivation := h.nameActivation_eq heffect hkept
  have hidle : ∀ path, busy ≠ some path → x.busy ≠ some path := by
    intro path hne
    obtain hsame | hnone := hbusy
    · rwa [← hsame]
    · rw [hnone]
      exact (Option.some_ne_none path).symm
  refine ⟨h.peers, ?_, ?_, h.rules, h.links, h.replies, ?_⟩
  · have hbooks := h.names.effect heffect hpatient
    rw [Core.pins_update] at hbooks
    exact hbooks
  · intro m b hb
    have hb' : b ∈ (nameQueue w' m).owners := hb
    rw [hqueue] at hb'
    by_cases hm : m = n
    · rw [hm, Function.update_self] at hb'
      obtain hold | hregistered := howners b hb'
      · exact h.owners n b hold
      · exact hregistered
    · rw [Function.update_of_ne hm] at hb'
      exact h.owners m b hb'
  · refine ⟨?_, ?_, ?_, ?_⟩
    · intro m path hm
      exact h.activations.forth m path ((hactivation m).symm.trans hm)
    · intro path a ha
      exact (hactivation a.name).trans (h.activations.back path a ha)
    · intro path a ha hpending hne
      exact h.activations.calm path a ha hpending (hidle path hne)
    · intro path a ha hprimary hne
      have hprimary : (nameQueue w' a.name).primary ≠ none := hprimary
      rw [hqueue] at hprimary
      by_cases hm : a.name = n
      · rw [hm, Function.update_self] at hprimary
        have hback := h.activations.back path a ha
        rw [hm] at hback
        obtain hold | hnone | hthis := hactivated hprimary
        · refine h.activations.owned path a ha ?_ (hidle path hne)
          rw [hm]
          exact hold
        · rw [hback] at hnone
          cases hnone
        · rw [hback] at hthis
          exact absurd hthis hne
      · rw [Function.update_of_ne hm] at hprimary
        exact h.activations.owned path a ha hprimary (hidle path hne)

/-- Taking an activation off a name, or attaching one, works on no queue and no reference. -/
theorem NameAt.effect_setActivation {w : NameRegistry ℕ} (h : NameAt w n pins none) (hpins : 0 < pins)
    (path : Option Bytes) : NameEffect w (w.setActivation n path) n pins (nameQueue w n) := by
  obtain ⟨y, hy⟩ := h.exists_name hpins
  rw [NameRegistry.setActivation, hy]
  dsimp only
  have hlist : (w.setName n { y with activation := path }).ownershipList n = w.ownershipList n := by
    rw [ownershipList_of_find? (find?_setName w n _), ownershipList_of_find? hy]
  refine ⟨?_, onlyName_setName w n _, ?_, ?_, Nat.le_refl _, fun id hid => .inl hid⟩
  · refine h.setName (ownershipList_of_find? hy).symm (h.live y hy) ?_
    rw [nameRefs_of_find? hy]
  · rw [nameQueue, hlist]
    rfl
  · exact CountersMoved.refl _ _

/-- The activation of a name after one was attached or taken off. -/
theorem nameActivation_setActivation {w : NameRegistry ℕ} {y : Name} (hy : w.nameTree.find? n = some y)
    (path : Option Bytes) (m : Bytes) :
    nameActivation (w.setActivation n path) m = if m = n then path else nameActivation w m := by
  rw [NameRegistry.setActivation, hy]
  show ((w.nameTree.insert n { y with activation := path }).find? m).bind _ = _
  rw [SearchTree.find?_insert]
  split
  · rfl
  · rfl

end Names

section Activations

variable {x : Aux} {c : Core} {n path : Bytes} {a a' : Activation} {busy : Option Bytes} {held : Bytes → ℕ}

/-- A name becomes activatable. -/
theorem Good.addActivation (h : Good x c) (user : Uid) (hnone : c.activations.find? path = none)
    (hname : nameActivation c.names n = none) (hheld : x.held = holdMore held (some n)) :
    Good { x with held := held }
      { c.setActivation path ⟨n, user, [], [], 0⟩ with names := c.names.setActivation n (some path) } := by
  have hpins : (c.setActivation path ⟨n, user, [], [], 0⟩).pins held = c.pins x.held := by
    funext m
    have hset := c.pins_setActivation held path ⟨n, user, [], [], 0⟩ m
    have hmore := holdMore_apply held (some n) m
    rw [SearchTree.weightAt, hnone] at hset
    simp only [Option.elim_none, Nat.add_zero, Activation.pins, List.map_nil, List.sum_nil] at hset
    rw [hset, hheld]
    show rulePins c.ownedMatches c.ids m + c.activations.total (fun _ b => b.pins m) + held m + _ =
      rulePins c.ownedMatches c.ids m + c.activations.total (fun _ b => b.pins m) + holdMore held (some n) m
    rw [hmore]
    simp only [Option.some.injEq]
    omega
  have hpos : 0 < c.pins x.held n := by
    show 0 < _ + _ + x.held n
    rw [hheld, holdMore_apply, if_pos rfl]
    omega
  obtain ⟨y, hy⟩ := (h.names.names n).exists_name hpos
  have hactivation := nameActivation_setActivation hy (some path)
  have heffect := (h.names.names n).effect_setActivation hpos (some path)
  have hqueue := NameWorld.nameQueue_effect h.names heffect
  rw [Function.update_eq_self] at hqueue
  refine ⟨h.peers, ?_, ?_, h.rules, h.links, h.replies, ?_⟩
  · have hbooks := h.names.effect heffect (h.names.patient n)
    rw [Function.update_eq_self, ← hpins] at hbooks
    exact hbooks
  · intro m b hb
    have hb' : b ∈ (nameQueue (c.names.setActivation n (some path)) m).owners := hb
    rw [hqueue] at hb'
    exact h.owners m b hb'
  · refine ⟨?_, ?_, ?_, ?_⟩
    · intro m p hm
      have hm' : nameActivation (c.names.setActivation n (some path)) m = some p := hm
      rw [hactivation] at hm'
      show ∃ b, (c.activations.insert path _).find? p = some b ∧ b.name = m
      split at hm'
      · next heq =>
        cases hm'
        exact ⟨_, SearchTree.find?_insert_self _ _ _, heq.symm⟩
      · obtain ⟨b, hb, hbn⟩ := h.activations.forth m p hm'
        have hne : p ≠ path := by
          intro heq
          rw [heq, hnone] at hb
          cases hb
        exact ⟨b, by rw [SearchTree.find?_insert_of_ne _ hne, hb], hbn⟩
    · intro p b hb
      show nameActivation (c.names.setActivation n (some path)) b.name = some p
      have hb' : (c.activations.insert path ⟨n, user, [], [], 0⟩).find? p = some b := hb
      rw [SearchTree.find?_insert] at hb'
      rw [hactivation]
      split at hb'
      · next heq =>
        cases hb'
        rw [if_pos rfl, heq]
      · have hback := h.activations.back p b hb'
        rw [if_neg, hback]
        intro heq
        rw [heq, hname] at hback
        cases hback
    · intro p b hb hpending hne
      have hb' : (c.activations.insert path ⟨n, user, [], [], 0⟩).find? p = some b := hb
      rw [SearchTree.find?_insert] at hb'
      split at hb'
      · cases hb'
        exact ⟨rfl, rfl⟩
      · exact h.activations.calm p b hb' hpending hne
    · intro p b hb hprimary hne
      have hb' : (c.activations.insert path ⟨n, user, [], [], 0⟩).find? p = some b := hb
      have hprimary' : (nameQueue (c.names.setActivation n (some path)) b.name).primary ≠ none := hprimary
      rw [hqueue] at hprimary'
      rw [SearchTree.find?_insert] at hb'
      split at hb'
      · cases hb'
        rfl
      · exact h.activations.owned p b hb' hprimary' hne

/-- A name is not activatable any more. -/
theorem Good.removeActivation (h : Good x c) (hfind : c.activations.find? path = some a) (hmessages : a.messages = []) :
    Good { x with held := holdMore x.held (some a.name) }
      { c with activations := c.activations.erase path, names := c.names.setActivation a.name none } := by
  have hpins : Core.pins { c with activations := c.activations.erase path } (holdMore x.held (some a.name)) =
      c.pins x.held := by
    funext m
    have htotal := c.activations.total_erase_of_find?_some (fun _ b => b.pins m) hfind
    simp only [Activation.pins, hmessages, List.map_nil, List.sum_nil, Nat.add_zero] at htotal
    show rulePins c.ownedMatches c.ids m + (c.activations.erase path).total (fun _ b => b.pins m) +
        holdMore x.held (some a.name) m =
      rulePins c.ownedMatches c.ids m + c.activations.total (fun _ b => b.pins m) + x.held m
    rw [holdMore_apply]
    simp only [Option.some.injEq]
    simp only [Activation.pins]
    omega
  have hpos : 0 < c.pins x.held a.name := Core.pins_pos hfind x.held
  obtain ⟨y, hy⟩ := (h.names.names a.name).exists_name hpos
  have hactivation := nameActivation_setActivation hy none
  have heffect := (h.names.names a.name).effect_setActivation hpos none
  have hqueue := NameWorld.nameQueue_effect h.names heffect
  rw [Function.update_eq_self] at hqueue
  have hback := h.activations.back path a hfind
  refine ⟨h.peers, ?_, ?_, h.rules, h.links, h.replies, ?_⟩
  · have hbooks := h.names.effect heffect (h.names.patient a.name)
    rw [Function.update_eq_self, ← hpins] at hbooks
    exact hbooks
  · intro m b hb
    have hb' : b ∈ (nameQueue (c.names.setActivation a.name none) m).owners := hb
    rw [hqueue] at hb'
    exact h.owners m b hb'
  · have herase : ∀ p b, (c.activations.erase path).find? p = some b → p ≠ path ∧ c.activations.find? p = some b := by
      intro p b hb
      rw [SearchTree.find?_erase] at hb
      split at hb
      · cases hb
      · next hne => exact ⟨hne, hb⟩
    refine ⟨?_, ?_, ?_, ?_⟩
    · intro m p hm
      have hm' : nameActivation (c.names.setActivation a.name none) m = some p := hm
      rw [hactivation] at hm'
      split at hm'
      · cases hm'
      · next hne =>
        obtain ⟨b, hb, hbn⟩ := h.activations.forth m p hm'
        refine ⟨b, ?_, hbn⟩
        show (c.activations.erase path).find? p = some b
        rw [SearchTree.find?_erase_of_ne, hb]
        intro heq
        rw [heq, hfind] at hb
        cases hb
        exact hne hbn.symm
    · intro p b hb
      obtain ⟨hne, hb'⟩ := herase p b hb
      show nameActivation (c.names.setActivation a.name none) b.name = some p
      have hback' := h.activations.back p b hb'
      rw [hactivation, if_neg, hback']
      intro heq
      rw [heq, hback] at hback'
      exact hne (Option.some.inj hback').symm
    · intro p b hb hpending hne
      exact h.activations.calm p b (herase p b hb).2 hpending hne
    · intro p b hb hprimary hne
      have hprimary' : (nameQueue (c.names.setActivation a.name none) b.name).primary ≠ none := hprimary
      rw [hqueue] at hprimary'
      exact h.activations.owned p b (herase p b hb).2 hprimary' hne

/-- An activation is rewritten but for its name. -/
theorem Good.setActivation (h : Good x c) (hfind : c.activations.find? path = some a) (hname : a'.name = a.name)
    (hpins : ∀ n, a'.pins n + held n = a.pins n + x.held n) (hbusy : ∀ p, busy ≠ some p → p ≠ path → x.busy ≠ some p)
    (hcalm : a'.pending = 0 → busy ≠ some path → a'.requests = [] ∧ a'.messages = [])
    (howned : (nameQueue c.names a.name).primary ≠ none → busy ≠ some path → a'.pending = 0) :
    Good { x with held := held, busy := busy } (c.setActivation path a') := by
  have hall : (c.setActivation path a').pins held = c.pins x.held := by
    funext m
    have hset := c.pins_setActivation held path a' m
    rw [SearchTree.weightAt, hfind] at hset
    simp only [Option.elim_some] at hset
    have hm := hpins m
    have hleft : c.pins held m + x.held m = c.pins x.held m + held m := by
      show _ + _ + held m + x.held m = _ + _ + x.held m + held m
      omega
    omega
  refine ⟨h.peers, ?_, h.owners, h.rules, h.links, h.replies, ?_⟩
  · show NameBooks c.names ((c.setActivation path a').pins held)
    rw [hall]
    exact h.names
  · refine ⟨?_, ?_, ?_, ?_⟩
    · intro m p hm
      obtain ⟨b, hb, hbn⟩ := h.activations.forth m p hm
      show ∃ b, (c.activations.insert path a').find? p = some b ∧ b.name = m
      rw [SearchTree.find?_insert]
      split
      · next heq =>
        rw [heq, hfind] at hb
        cases hb
        exact ⟨a', rfl, hname.trans hbn⟩
      · exact ⟨b, hb, hbn⟩
    · intro p b hb
      have hb' : (c.activations.insert path a').find? p = some b := hb
      rw [SearchTree.find?_insert] at hb'
      split at hb'
      · next heq =>
        cases hb'
        rw [hname, heq]
        exact h.activations.back path a hfind
      · exact h.activations.back p b hb'
    · intro p b hb hpending hne
      have hb' : (c.activations.insert path a').find? p = some b := hb
      rw [SearchTree.find?_insert] at hb'
      split at hb'
      · next heq =>
        cases hb'
        exact hcalm hpending (heq ▸ hne)
      · next heq => exact h.activations.calm p b hb' hpending (hbusy p hne heq)
    · intro p b hb hprimary hne
      have hb' : (c.activations.insert path a').find? p = some b := hb
      rw [SearchTree.find?_insert] at hb'
      split at hb'
      · next heq =>
        cases hb'
        rw [hname] at hprimary
        exact howned hprimary (heq ▸ hne)
      · next heq => exact h.activations.owned p b hb' hprimary (hbusy p hne heq)

end Activations

section Replies

variable {x : Aux} {c : Core} {callee caller : ℕ} {serial : UInt32}

/-- A call is queued. -/
theorem Good.call (h : Good x c) (charge : UserCharge)
    (hnone : (c.replies.replyTree callee).find? (caller, serial) = none) (hcallee : c.isRegistered callee = true)
    (hcaller : c.isRegistered caller = true) :
    Good x { c with replies := c.replies.file callee caller serial charge } := by
  refine ⟨h.peers, h.names, h.owners, h.rules, h.links, ⟨h.replies.books.file hnone charge, ?_, ?_⟩, h.activations⟩
  · intro d e s hout
    rw [ReplyWorld.Outstanding, ReplyWorld.find?_file] at hout
    split at hout
    · next heq => exact .inl (heq.1 ▸ hcallee)
    · exact h.replies.callee d e s hout
  · intro d e s hout
    rw [ReplyWorld.Outstanding, ReplyWorld.find?_file] at hout
    split at hout
    · next heq =>
      rw [(Prod.mk.inj heq.2).1]
      exact hcaller
    · exact h.replies.caller d e s hout

/-- A reply is not expected any more. -/
theorem Good.endReply (h : Good x c) {slot : ℕ}
    (hfind : (c.replies.replyTree callee).find? (caller, serial) = some slot) :
    Good x { c with replies := c.replies.drop callee caller serial slot } := by
  have hsub : ∀ d e s, (c.replies.drop callee caller serial slot).Outstanding d e s → c.replies.Outstanding d e s := by
    intro d e s hout
    rw [ReplyWorld.Outstanding, ReplyWorld.find?_drop] at hout
    split at hout
    · cases hout
    · exact hout
  exact ⟨h.peers, h.names, h.owners, h.rules, h.links, ⟨h.replies.books.drop hfind,
    fun d e s hout => h.replies.callee d e s (hsub d e s hout),
    fun d e s hout => h.replies.caller d e s (hsub d e s hout)⟩, h.activations⟩

end Replies

section Moves

variable {ok : Core → Leave → Prop} {x x' : Aux} {c c' : Core} {said : List Event}

/-- Where an operation is does not matter, as long as the references, the one who leaves and the activation
that is settled are the same. -/
theorem Good.setAux (h : Good x c) (flushing : Bool) (arming : Option (ℕ × List MatchKeys)) (silent : Bool) :
    Good { x with flushing := flushing, arming := arming, silent := silent } c :=
  ⟨h.peers, h.names, h.owners, h.rules, h.links, h.replies, h.activations⟩

/-- The order only knows the references, who leaves and what is being settled. -/
theorem Good.congr_aux (h : Good x c) {x' : Aux} (hheld : x'.held = x.held) (hleaving : x'.leaving = x.leaving)
    (hbusy : x'.busy = x.busy) : Good x' c := by
  obtain ⟨hpeers, hnames, howners, hrules, hlinks, hreplies, hactivations⟩ := h
  rw [← hleaving] at hpeers hlinks hreplies
  rw [← hheld] at hnames
  rw [← hbusy] at hactivations
  exact ⟨hpeers, hnames, howners, hrules, hlinks, hreplies, hactivations⟩

/-- Every step keeps the bus in order. -/
theorem Good.change (h : Good x c) (hchange : Change ok x c x' c' said) : Good x' c' := by
  cases hchange with
  | idle => exact h
  | connect peer hregistered hmonitor hleaving => exact h.connect hregistered hmonitor
  | hangup id hleaving => exact (h.hangup hleaving).congr_aux rfl rfl rfl
  | register id peer hpeer hregistered hmonitor hhup hleaving => exact h.register hpeer hmonitor hhup
  | announceUnique => exact h
  | goodbye id hleaving hflushing harming => exact (h.goodbye hleaving true).congr_aux rfl rfl rfl
  | flushed id hleaving hrules => exact h.setAux false x.arming x.silent
  | startMonitor id peer rules instances hpeer hregistered hmonitor hhup hleaving harming hrules =>
    exact h.startMonitor hpeer hregistered hmonitor hhup _
  | armed id harming => exact h.setAux x.flushing none x.silent
  | subscribe id keys rule held hregistered hrefs hheld hleaving harming hok =>
    obtain ⟨peer, hpeer, hreg⟩ := Core.exists_of_isRegistered hregistered
    have hmonitor : c.isMonitor id = false :=
      (Core.isMonitor_of_find? hpeer).trans (h.peers.exclusive id peer hpeer hreg)
    exact h.addRule (.inl hregistered) hmonitor hrefs hheld x.arming
  | arm id keys instances rule held hmonitor hrefs hheld hleaving harming hsame hok =>
    exact h.addRule (.inr hmonitor) hmonitor hrefs hheld _
  | drop id keys rule said hrule hsaid => exact h.dropRule hrule
  | flush id registry hregistry hleaving hflushing =>
    refine h.flush ?_
    obtain rfl | rfl := hregistry
    · rfl
    · rfl
  | names w' n q pins busy said heffect hpatient hkept howners hbusy hactivated hsaid =>
    exact h.setNames heffect hpatient hkept howners hbusy hactivated
  | unregister id peer hpeer hregistered hleaving hparting hflushing hrules hnames hcalls hlinks =>
    exact h.unregister hpeer hregistered hleaving hrules hnames hcalls hlinks
  | stopMonitor id peer hpeer hmonitor hleaving hflushing hrules => exact h.stopMonitor hpeer hmonitor hleaving hrules
  | left id parting hleaving hparting hflushing hclear => exact (h.left hleaving hclear).congr_aux rfl rfl rfl
  | free id peer hpeer hclear hleaving => exact h.free hpeer hclear
  | addActivation path n user held hnone hname hheld hbusy => exact h.addActivation user hnone hname hheld
  | removeActivation path a hfind hrequests hmessages hbusy => exact h.removeActivation hfind hmessages
  | pend path a pending hfind hpending hprimary hbusy =>
    exact @Good.setActivation x c path a { a with pending := pending } x.busy x.held h hfind rfl
      (fun _ => rfl) (fun p hne _ => hne) (fun hzero => absurd hzero hpending) (fun hne => absurd hprimary hne)
  | queueRequest path a request hfind hpending hserial hbusy =>
    exact @Good.setActivation x c path a { a with requests := a.requests ++ [request] } x.busy x.held h hfind
      rfl (fun _ => rfl) (fun p hne _ => hne) (fun hzero => absurd hzero hpending)
      (fun hprimary hne => h.activations.owned path a hfind hprimary hne)
  | queueMessage path a message held hfind hpending hheld hbusy =>
    refine @Good.setActivation x c path a { a with messages := a.messages ++ [message] } x.busy held h hfind
      rfl (fun n => ?_) (fun p hne _ => hne) (fun hzero => absurd hzero hpending)
      (fun hprimary hne => h.activations.owned path a hfind hprimary hne)
    simp only [Activation.pins, List.map_append, List.sum_append, List.map_cons, List.map_nil, List.sum_singleton,
      hheld n]
    omega
  | settle path a hfind hbusy =>
    refine @Good.setActivation x c path a { a with pending := 0 } (some path) x.held h hfind rfl
      (fun _ => rfl) (fun p hne hp => ?_) (fun _ hne => absurd rfl hne) (fun _ _ => rfl)
    obtain hnone | hsome := hbusy
    · rw [hnone]
      exact (Option.some_ne_none p).symm
    · rw [hsome]
      exact fun heq => hp (Option.some.inj heq).symm
  | resolveRequest path a request rest outcome hfind hrequests hpending hbusy =>
    exact @Good.setActivation x c path a { a with requests := rest } x.busy x.held h hfind rfl
      (fun _ => rfl) (fun p hne _ => hne) (fun _ hne => absurd hbusy hne) (fun _ _ => hpending)
  | resolveMessage path a message rest attempt error hfind hmessages hpending hbusy hresolves =>
    refine @Good.setActivation x c path a { a with messages := rest } x.busy
      (fun n => x.held n + message.sendersNames.count n) h hfind rfl (fun n => ?_) (fun p hne _ => hne)
      (fun _ hne => absurd hbusy hne) (fun _ _ => hpending)
    simp only [Activation.pins, hmessages, List.map_cons, List.sum_cons]
    omega
  | settled path hbusy hdone =>
    have hidle : ∀ p a, c.activations.find? p = some a →
        (a.pending = 0 → a.requests = [] ∧ a.messages = []) ∧ ((nameQueue c.names a.name).primary ≠ none → a.pending = 0) := by
      intro p a ha
      by_cases hp : p = path
      · subst hp
        obtain ⟨hpending, hrequests, hmessages⟩ := hdone a ha
        exact ⟨fun _ => ⟨hrequests, hmessages⟩, fun _ => hpending⟩
      · have hne : x.busy ≠ some p := by
          rw [hbusy]
          exact fun heq => hp (Option.some.inj heq).symm
        exact ⟨fun hpending => h.activations.calm p a ha hpending hne,
          fun hprimary => h.activations.owned p a ha hprimary hne⟩
    exact ⟨h.peers, h.names, h.owners, h.rules, h.links, h.replies, h.activations.forth, h.activations.back,
      fun p a ha hpending _ => (hidle p a ha).1 hpending, fun p a ha hprimary _ => (hidle p a ha).2 hprimary⟩
  | call callee caller serial charge hnone hcallee hcaller hserial hleaving =>
    exact h.call charge hnone hcallee hcaller
  | endReply callee caller slot serial event hfind hevent hflushing => exact h.endReply hfind
  | slots slots hbooks =>
    exact ⟨h.peers, h.names, h.owners, h.rules, h.links, ⟨hbooks, h.replies.callee, h.replies.caller⟩, h.activations⟩
  | silence => exact h.setAux x.flushing x.arming true

/-- Every move keeps the bus in order. -/
theorem Good.move {s s' : Aux × Bus} (h : Good s.1 s.2.core) (hmove : Move ok s s') : Good s'.1 s'.2.core := by
  obtain ⟨said, events, hchange, -⟩ := hmove
  exact h.change hchange

/-- Some moves keep the bus in order. -/
theorem Good.moves {s s' : Aux × Bus} (h : Good s.1 s.2.core) (hmoves : Moves ok s s') : Good s'.1 s'.2.core := by
  induction hmoves with
  | refl => exact h
  | tail _ hmove ih => exact ih.move hmove

end Moves

end DbusBroker
