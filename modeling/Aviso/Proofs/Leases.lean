import Aviso.Client.WatchTransport
import Mathlib.Data.List.Perm.Basic

namespace Aviso.Client

namespace WatchTransport

variable {t t' : WatchTransport κ}

/-- What a lease of the first free slot is, and what it changes. -/
theorem leaseFirstFree_some {lease : Lease κ} (h : t.leaseFirstFree = some (lease, t')) :
    ∃ slot, t.slots[lease.index]? = some slot ∧ slot.http = lease.http ∧
      slot.active < t.perConnection ∧
      t' = { t with slots := t.slots.set lease.index { slot with active := slot.active + 1 } } := by
  obtain ⟨index, hindex, hmap⟩ := Option.bind_eq_some_iff.mp h
  obtain ⟨slot, hslot, heq⟩ := Option.map_eq_some_iff.mp hmap
  cases heq
  obtain ⟨hlt, hfree, -⟩ := List.findIdx?_eq_some_iff_getElem.mp hindex
  have hactive : slot.active < t.perConnection := by
    rw [List.getElem?_eq_getElem hlt] at hslot
    cases hslot
    simpa using hfree
  exact ⟨slot, hslot, rfl, hactive, rfl⟩

/-- Without a free slot every slot is full. -/
theorem leaseFirstFree_none (h : t.leaseFirstFree = none) :
    ∀ slot ∈ t.slots, t.perConnection ≤ slot.active := by
  intro slot hslot
  rcases Option.bind_eq_none_iff.mp h with hnone
  cases hindex : t.slots.findIdx? (·.active < t.perConnection) with
  | none =>
    have hfull := List.findIdx?_eq_none_iff.mp hindex slot hslot
    simpa using hfull
  | some index =>
    obtain ⟨hlt, -, -⟩ := List.findIdx?_eq_some_iff_getElem.mp hindex
    have hmap := hnone index hindex
    simp [List.getElem?_eq_getElem hlt] at hmap

/-- Trimming takes idle slots off the end, and stops at the first. -/
theorem trim_spec (slots : List (Slot κ)) :
    ∃ idle, slots = trim slots ++ idle ∧ ∀ slot ∈ idle, slot.active = 0 := by
  cases slots with
  | nil => exact ⟨[], rfl, by simp⟩
  | cons first rest =>
    refine ⟨rest.rtakeWhile (·.active = 0), ?_, ?_⟩
    · simp [trim, List.rdropWhile_append_rtakeWhile]
    · intro slot hslot
      simpa using List.mem_rtakeWhile_imp hslot

theorem trim_getElem? {slots : List (Slot κ)} {index : Nat} {slot : Slot κ}
    (h : (trim slots)[index]? = some slot) :
    slots[index]? = some slot := by
  obtain ⟨idle, hsplit, -⟩ := trim_spec slots
  rw [hsplit, List.getElem?_append_left (List.getElem?_eq_some_iff.mp h).1]
  exact h

/-- A slot in use is not taken off. -/
theorem trim_keeps {slots : List (Slot κ)} {index : Nat} {slot : Slot κ}
    (h : slots[index]? = some slot) (hpos : 0 < slot.active) :
    (trim slots)[index]? = some slot := by
  obtain ⟨idle, hsplit, hidle⟩ := trim_spec slots
  rw [hsplit] at h
  by_cases hlt : index < (trim slots).length
  · rwa [List.getElem?_append_left hlt] at h
  · rw [List.getElem?_append_right (Nat.le_of_not_lt hlt)] at h
    have hzero := hidle slot (List.mem_of_getElem? h)
    omega

theorem trim_ne_nil {slots : List (Slot κ)} (h : slots ≠ []) : trim slots ≠ [] := by
  cases slots with
  | nil => exact absurd rfl h
  | cons first rest => simp [trim]

theorem trim_last {slots : List (Slot κ)} (hlen : 1 < (trim slots).length)
    (hlast : last ∈ (trim slots).getLast?) : 0 < last.active := by
  cases slots with
  | nil => simp [trim] at hlen
  | cons first rest =>
    have hne : rest.rdropWhile (·.active = 0) ≠ [] := by
      intro hnil
      simp [trim, hnil] at hlen
    have hstop := List.rdropWhile_last_not (fun slot : Slot κ => decide (slot.active = 0)) rest hne
    have heq : (rest.rdropWhile (·.active = 0)).getLast hne = last := by
      rw [trim, List.getLast?_cons, List.getLast?_eq_some_getLast hne] at hlast
      simpa using hlast
    rw [heq] at hstop
    simp only [decide_eq_true_eq] at hstop
    omega

end WatchTransport

namespace World

/-- How many live leases hold a slot. -/
def held (w : World κ) (index : Nat) : Nat := w.leases.countP (·.index = index)

/-- The accounting of a transport whose connections carry at most `cap` watches. -/
structure Sound (cap : Nat) (w : World κ) : Prop where
  cap_eq : w.transport.perConnection = cap
  counted : ∀ index slot, w.slots[index]? = some slot → slot.active = w.held index
  capped : ∀ slot ∈ w.slots, slot.active ≤ cap
  matched : ∀ lease ∈ w.leases, ∃ slot, w.slots[lease.index]? = some slot ∧ slot.http = lease.http
  nonempty : w.slots ≠ []
  trimmed : 1 < w.slots.length → ∀ last ∈ w.slots.getLast?, 0 < last.active

variable {cap : Nat} {w w' : World κ}

theorem Sound.init (nonzero : 0 < cap) (first : κ) : (World.init cap nonzero first).Sound cap where
  cap_eq := rfl
  counted := by
    intro index slot hslot
    cases index with
    | zero => cases hslot; rfl
    | succ index => cases hslot
  capped := by simp [World.init, slots, WatchTransport.new]
  matched := by simp [World.init]
  nonempty := by simp [World.init, slots, WatchTransport.new]
  trimmed := by simp [World.init, slots, WatchTransport.new]

/-- The count of waiting builders is no part of the accounting. -/
theorem Sound.building (h : w.Sound cap) (n : Nat) : ({ w with building := n }).Sound cap :=
  ⟨h.cap_eq, h.counted, h.capped, h.matched, h.nonempty, h.trimmed⟩

theorem held_grant (granted : Lease κ × WatchTransport κ) (index : Nat) :
    (w.grant granted).held index = w.held index + if granted.1.index = index then 1 else 0 := by
  simp [held, grant, List.countP_cons]

/-- A lease of a free slot keeps the accounting. -/
theorem Sound.lease (h : w.Sound cap) {granted : Lease κ × WatchTransport κ}
    (hfree : w.transport.leaseFirstFree = some granted) : (w.grant granted).Sound cap := by
  obtain ⟨lease, t'⟩ := granted
  obtain ⟨slot, hslot, hhttp, hroom, rfl⟩ := WatchTransport.leaseFirstFree_some hfree
  have hlt : lease.index < w.slots.length := (List.getElem?_eq_some_iff.mp hslot).1
  have hget (index : Nat) (found : Slot κ)
      (hfound : (w.slots.set lease.index { slot with active := slot.active + 1 })[index]? = some found) :
      ∃ old, w.slots[index]? = some old ∧ found.http = old.http ∧
        found.active = old.active + if lease.index = index then 1 else 0 := by
    by_cases hindex : lease.index = index
    · subst hindex
      rw [List.getElem?_set_self hlt] at hfound
      cases hfound
      exact ⟨slot, hslot, rfl, by simp⟩
    · rw [List.getElem?_set_ne hindex] at hfound
      exact ⟨found, hfound, rfl, by simp [hindex]⟩
  exact {
    cap_eq := h.cap_eq
    counted := by
      intro index found hfound
      obtain ⟨old, hold, -, hactive⟩ := hget index found hfound
      rw [hactive, h.counted index old hold, held_grant]
    capped := by
      intro found hfound
      rcases List.mem_or_eq_of_mem_set hfound with hfound | rfl
      · exact h.capped found hfound
      · have hcap := h.cap_eq
        exact hcap ▸ hroom
    matched := by
      intro l hl
      have hold : ∃ old, w.slots[l.index]? = some old ∧ old.http = l.http := by
        rcases List.mem_cons.mp hl with rfl | hl
        · exact ⟨slot, hslot, hhttp⟩
        · exact h.matched l hl
      obtain ⟨old, hold, holdhttp⟩ := hold
      have hlen : l.index < (w.slots.set lease.index
          { slot with active := slot.active + 1 }).length := by
        simpa using (List.getElem?_eq_some_iff.mp hold).1
      obtain ⟨old', hold', hsame, -⟩ := hget l.index _ (List.getElem?_eq_getElem hlen)
      cases hold.symm.trans hold'
      exact ⟨_, List.getElem?_eq_getElem hlen, hsame.trans holdhttp⟩
    nonempty := by
      intro hnil
      exact h.nonempty (by simpa [grant, slots] using hnil)
    trimmed := by
      intro hlen last hlast
      have hlen' : 1 < w.slots.length := by simpa [grant, slots] using hlen
      have hlast' : (w.slots.set lease.index
          { slot with active := slot.active + 1 })[w.slots.length - 1]? = some last := by
        simpa [grant, slots, List.getLast?_eq_getElem?] using hlast
      obtain ⟨old, hold, -, hactive⟩ := hget _ last hlast'
      have hpos := h.trimmed hlen' old (by simpa [List.getLast?_eq_getElem?] using hold)
      omega }

/-- A new client with its first lease keeps the accounting. -/
theorem Sound.push (h : w.Sound cap) (built : κ) (hcap : 0 < cap) :
    (w.grant (w.transport.push built)).Sound cap := by
  have hnone : w.held w.slots.length = 0 := by
    refine List.countP_eq_zero.mpr ?_
    intro lease hlease hindex
    obtain ⟨slot, hslot, -⟩ := h.matched lease hlease
    have hlt := (List.getElem?_eq_some_iff.mp hslot).1
    simp only [decide_eq_true_eq] at hindex
    omega
  have hget (index : Nat) : (w.slots ++ [⟨built, 1⟩])[index]? =
      if index = w.slots.length then some ⟨built, 1⟩ else w.slots[index]? := by
    rcases Nat.lt_trichotomy index w.slots.length with hlt | rfl | hgt
    · rw [List.getElem?_append_left hlt, if_neg (Nat.ne_of_lt hlt)]
    · simp
    · rw [if_neg (Nat.ne_of_gt hgt), List.getElem?_eq_none (by simpa using Nat.succ_le_of_lt hgt),
        List.getElem?_eq_none (Nat.le_of_lt hgt)]
  exact {
    cap_eq := h.cap_eq
    counted := by
      intro index slot hslot
      have hslot : (w.slots ++ [⟨built, 1⟩])[index]? = some slot := hslot
      rw [hget] at hslot
      rw [held_grant]
      split at hslot
      · rename_i hindex
        cases hslot
        subst hindex
        simp [show w.held w.transport.slots.length = 0 from hnone, WatchTransport.push, slots]
      · rename_i hindex
        have hne : w.transport.slots.length ≠ index := fun heq => hindex heq.symm
        simp [h.counted index slot hslot, WatchTransport.push, hne]
    capped := by
      intro slot hslot
      rcases List.mem_append.mp hslot with hslot | hslot
      · exact h.capped slot hslot
      · cases List.mem_singleton.mp hslot
        exact hcap
    matched := by
      intro lease hlease
      show ∃ slot, (w.slots ++ [⟨built, 1⟩])[lease.index]? = some slot ∧ slot.http = lease.http
      rcases List.mem_cons.mp hlease with rfl | hlease
      · exact ⟨⟨built, 1⟩, by simp [WatchTransport.push, slots], rfl⟩
      · obtain ⟨slot, hslot, hhttp⟩ := h.matched lease hlease
        have hlt := (List.getElem?_eq_some_iff.mp hslot).1
        exact ⟨slot, by rw [List.getElem?_append_left hlt, hslot], hhttp⟩
    nonempty := by simp [grant, slots, WatchTransport.push]
    trimmed := by
      intro _ last hlast
      have hlast : last = ⟨built, 1⟩ := by
        simpa [grant, slots, WatchTransport.push, eq_comm] using hlast
      subst hlast
      exact Nat.one_pos }

theorem held_erase {lease : Lease κ} (hlease : w.leases[position]? = some lease) (index : Nat) :
    (w.leases.eraseIdx position).countP (·.index = index) + (if lease.index = index then 1 else 0) =
      w.held index := by
  obtain ⟨hlt, rfl⟩ := List.getElem?_eq_some_iff.mp hlease
  have hperm := List.getElem_cons_eraseIdx_perm hlt
  have hcount := hperm.countP_eq (fun lease : Lease κ => decide (lease.index = index))
  rw [List.countP_cons] at hcount
  simpa [held] using hcount

/-- A dropped lease keeps the accounting: no slot of a live lease is released. -/
theorem Sound.drop {lease : Lease κ} (h : w.Sound cap) (hlease : w.leases[position]? = some lease) :
    ({ w with
        transport := w.transport.release lease
        leases := w.leases.eraseIdx position } : World κ).Sound cap := by
  have hmodified (index : Nat) (old : Slot κ) (hold : w.slots[index]? = some old) :
      ∃ slot, (w.slots.modify lease.index
          fun slot => { slot with active := slot.active - 1 })[index]? = some slot ∧
        slot.http = old.http ∧
        slot.active = (w.leases.eraseIdx position).countP (·.index = index) := by
    have hcount := held_erase hlease index
    have hactive := h.counted index old hold
    rw [List.getElem?_modify, hold]
    refine ⟨_, rfl, ?_, ?_⟩
    · split <;> rfl
    · split
      · rename_i hindex
        simp only [hindex, if_true] at hcount ⊢
        omega
      · rename_i hindex
        simp only [hindex, if_false] at hcount
        exact hactive.trans hcount.symm
  have hkept (index : Nat) (slot : Slot κ)
      (hslot : (w.transport.release lease).slots[index]? = some slot) :
      ∃ old, w.slots[index]? = some old ∧
        slot.active = (w.leases.eraseIdx position).countP (·.index = index) := by
    have hslot := WatchTransport.trim_getElem? hslot
    have hlen := (List.getElem?_eq_some_iff.mp hslot).1
    rw [List.length_modify] at hlen
    obtain ⟨slot', hslot', -, hactive⟩ := hmodified index _ (List.getElem?_eq_getElem hlen)
    cases hslot.symm.trans hslot'
    exact ⟨_, List.getElem?_eq_getElem hlen, hactive⟩
  exact {
    cap_eq := h.cap_eq
    counted := by
      intro index slot hslot
      obtain ⟨-, -, hactive⟩ := hkept index slot hslot
      exact hactive
    capped := by
      intro slot hslot
      obtain ⟨index, hindex⟩ := List.mem_iff_getElem?.mp hslot
      obtain ⟨old, hold, hactive⟩ := hkept index slot hindex
      have hcount := held_erase hlease index
      have hbound := h.capped old (List.mem_of_getElem? hold)
      have heq := h.counted index old hold
      omega
    matched := by
      intro l hl
      obtain ⟨old, hold, hhttp⟩ := h.matched l (List.mem_of_mem_eraseIdx hl)
      obtain ⟨slot, hslot, hsame, hactive⟩ := hmodified l.index old hold
      -- the lease counts itself, so its slot is in use
      have hpos : 0 < (w.leases.eraseIdx position).countP (·.index = l.index) :=
        List.countP_pos_iff.mpr ⟨l, hl, by simp⟩
      exact ⟨slot, WatchTransport.trim_keeps hslot (hactive ▸ hpos), hsame.trans hhttp⟩
    nonempty := by
      refine WatchTransport.trim_ne_nil ?_
      intro hnil
      have hlen := congrArg List.length hnil
      rw [List.length_modify] at hlen
      exact h.nonempty (List.length_eq_zero_iff.mp hlen)
    trimmed := fun hlen _ hlast => WatchTransport.trim_last hlen hlast }

theorem Sound.step (h : w.Sound cap) (hcap : 0 < cap) (hs : step w event = some w') :
    w'.Sound cap := by
  cases event with
  | acquire =>
    simp only [World.step] at hs
    split at hs
    · cases hs
      exact h.lease ‹_›
    · cases hs
      exact h.building _
  | built client =>
    simp only [World.step] at hs
    split at hs
    · cases hs
    · cases client with
      | none =>
        cases hs
        exact h.building _
      | some client =>
        cases hs
        have hbuilt := h.building (w.building - 1)
        cases hfree : w.transport.leaseFirstFree with
        | none => exact hbuilt.push client hcap
        | some granted => exact hbuilt.lease hfree
  | drop position =>
    obtain ⟨lease, hlease, rfl⟩ := Option.map_eq_some_iff.mp hs
    exact h.drop hlease

/-- A step that adds a client finds every slot full. -/
theorem full_of_grows (hs : step w event = some w') (hlen : w.slots.length < w'.slots.length) :
    ∀ slot ∈ w.slots, w.transport.perConnection ≤ slot.active := by
  have hlease {granted : Lease κ × WatchTransport κ}
      (hfree : w.transport.leaseFirstFree = some granted) :
      granted.2.slots.length = w.slots.length := by
    have hsome : w.transport.leaseFirstFree = some (granted.1, granted.2) := hfree
    obtain ⟨slot, -, -, -, heq⟩ := WatchTransport.leaseFirstFree_some hsome
    simp [heq, slots]
  cases event with
  | acquire =>
    simp only [World.step] at hs
    split at hs
    · cases hs
      exact absurd (hlease ‹_›) (Nat.ne_of_gt hlen)
    · cases hs
      exact absurd hlen (Nat.lt_irrefl _)
  | built client =>
    simp only [World.step] at hs
    split at hs
    · cases hs
    · cases client with
      | none =>
        cases hs
        exact absurd hlen (Nat.lt_irrefl _)
      | some client =>
        cases hs
        cases hfree : w.transport.leaseFirstFree with
        | none => exact WatchTransport.leaseFirstFree_none hfree
        | some granted =>
          simp only [hfree, Option.getD_some] at hlen
          exact absurd (hlease hfree) (Nat.ne_of_gt hlen)
  | drop position =>
    obtain ⟨lease, hlease, rfl⟩ := Option.map_eq_some_iff.mp hs
    obtain ⟨idle, hsplit, -⟩ := WatchTransport.trim_spec
      (w.slots.modify lease.index fun slot => { slot with active := slot.active - 1 })
    have htotal := congrArg List.length hsplit
    simp only [List.length_append, List.length_modify] at htotal
    simp only [slots, WatchTransport.release] at hlen htotal
    omega

/-- In every interleaving of acquires and drops the accounting is sound, and a
client is added only when every slot is full. -/
theorem lease_accounting (cap : Nat) (nonzero : 0 < cap) (first : κ) (events : List (Event κ))
    (w : World κ) (h : Lib.Machine.run step (init cap nonzero first) events = some w) :
    w.Sound cap ∧ ∀ event w', step w event = some w' → w.slots.length < w'.slots.length →
      ∀ slot ∈ w.slots, slot.active = cap := by
  have hsound : w.Sound cap :=
    Lib.Machine.run_invariant (P := Sound cap) (fun _ _ _ hw hs => hw.step nonzero hs) h
      (.init nonzero first)
  refine ⟨hsound, ?_⟩
  intro event w' hs hlen slot hslot
  have hfull := full_of_grows hs hlen slot hslot
  exact Nat.le_antisymm (hsound.capped slot hslot) (hsound.cap_eq ▸ hfull)

/-- Two watches on connections for one: the second gets a client of its own, and
the first is freed under it. -/
theorem lease_accounting_two :
    ∃ w : World Nat, Lib.Machine.run step (init 1 Nat.one_pos 7)
        [.acquire, .acquire, .built (some 8), .drop 1] = some w ∧
      w.slots = [⟨7, 0⟩, ⟨8, 1⟩] ∧ w.Sound 1 := by
  refine ⟨⟨⟨1, Nat.one_pos, [⟨7, 0⟩, ⟨8, 1⟩]⟩, [⟨1, 8⟩], 0⟩, rfl, rfl, ?_⟩
  exact (lease_accounting 1 Nat.one_pos 7 [.acquire, .acquire, .built (some 8), .drop 1] _ rfl).1

end World
end Aviso.Client
