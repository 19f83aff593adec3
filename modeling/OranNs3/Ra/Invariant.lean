import OranNs3.Ra.Model

/-!
# The invariant of random access

What keeps the RNTIs of a cell apart, on the parts of its state that matter (`RaInv`): the RNTI of a
response under way is had by nobody but the UE that expects it. Each of the ways in which a step
changes these parts keeps the invariant: a preamble is sent by a contention-based access
(`RaInv.sendContention`) or by a UE in handover (`RaInv.sendAssigned`), a UE takes an RNTI
(`RaInv.takeRar`, `RaInv.takeCommand`), a preamble is allocated (`RaInv.allocate`), a slot is
answered (`RaInv.answer`), and something is over (`RaInv.mono`, `RaInv.hush`, `RaInv.clearRnti`).
-/

namespace OranNs3

open Function List

variable {n : Nat}

/-- The invariant of random access, on the preambles that the UEs expect a response to (255 is
none), the RNTIs of the UEs, the preambles allocated for handovers, those sent and not yet
processed, the responses and commands under way and the RNTIs of the contexts. -/
structure RaInv (phy rnti : Fin n → Nat) (nc : List NcRaPreambleInfo) (sent : List RachPreamble)
    (rars : List Rar) (commands : List (Nat × Nat)) (contexts : List Nat) : Prop where
  sent_ne : ∀ x ∈ sent, x.preambleId ≠ 255
  rar_ne : ∀ x ∈ rars, x.raPreambleId ≠ 255
  entry_ne : ∀ e ∈ nc, e.preambleId ≠ 255 ∧ e.rnti ≠ 0
  entry_context : ∀ e ∈ nc, e.rnti ∈ contexts
  entry_ids : (nc.map NcRaPreambleInfo.preambleId).Nodup
  entry_rntis : (nc.map NcRaPreambleInfo.rnti).Nodup
  command_rntis : (commands.map Prod.fst).Nodup
  rar_holder : ∀ x ∈ rars, ∀ i j, phy i = x.raPreambleId → rnti j = x.rnti → x.rnti ≠ 0 → i = j
  rar_rnti : ∀ x ∈ rars, ∀ y ∈ rars, x.rnti = y.rnti → x.rnti ≠ 0 →
    x.raPreambleId = y.raPreambleId
  rar_entry : ∀ e ∈ nc, ∀ x ∈ rars, x.rnti = e.rnti ↔ x.raPreambleId = e.preambleId
  entry_listener : ∀ e ∈ nc, ∀ i j, phy i = e.preambleId → rnti j = e.rnti → i = j
  command_entry : ∀ c ∈ commands, ∀ e ∈ nc, e.rnti = c.1 → e.preambleId = c.2 →
    ∀ i, phy i ≠ e.preambleId ∧ rnti i ≠ e.rnti
  unassigned : ∀ x ∈ sent, x.contention = true → ∀ e ∈ nc, e.preambleId ≠ x.preambleId
  distinct : ∀ i j, rnti i = rnti j → rnti i ≠ 0 → i = j

namespace RaInv

variable {phy rnti : Fin n → Nat} {nc nc' : List NcRaPreambleInfo} {sent sent' : List RachPreamble}
  {rars rars' : List Rar} {commands commands' : List (Nat × Nat)} {contexts contexts' : List Nat}
  {i : Fin n} {p ρ : Nat}

section
variable (h : RaInv phy rnti nc sent rars commands contexts)
include h

theorem mono (hnc : nc'.Sublist nc) (hsent : ∀ x ∈ sent', x ∈ sent) (hrars : ∀ x ∈ rars', x ∈ rars)
    (hcommands : commands'.Sublist commands) (hcontexts : ∀ e ∈ nc', e.rnti ∈ contexts') :
    RaInv phy rnti nc' sent' rars' commands' contexts' where
  sent_ne := fun x hx => h.sent_ne x (hsent x hx)
  rar_ne := fun x hx => h.rar_ne x (hrars x hx)
  entry_ne := fun e he => h.entry_ne e (hnc.subset he)
  entry_context := hcontexts
  entry_ids := h.entry_ids.sublist (hnc.map _)
  entry_rntis := h.entry_rntis.sublist (hnc.map _)
  command_rntis := h.command_rntis.sublist (hcommands.map _)
  rar_holder := fun x hx => h.rar_holder x (hrars x hx)
  rar_rnti := fun x hx y hy => h.rar_rnti x (hrars x hx) y (hrars y hy)
  rar_entry := fun e he x hx => h.rar_entry e (hnc.subset he) x (hrars x hx)
  entry_listener := fun e he => h.entry_listener e (hnc.subset he)
  command_entry := fun c hc e he => h.command_entry c (hcommands.subset hc) e (hnc.subset he)
  unassigned := fun x hx hx' e he => h.unassigned x (hsent x hx) hx' e (hnc.subset he)
  distinct := h.distinct

theorem hush (i : Fin n) :
    RaInv (Function.update phy i 255) rnti nc sent rars commands contexts := by
  have hphy : ∀ j q, q ≠ 255 → Function.update phy i 255 j = q → phy j = q := by
    intro j q hq hj
    rw [update_apply] at hj
    split at hj
    · exact absurd hj.symm hq
    · exact hj
  exact { h with
    rar_holder := fun x hx j k hj => h.rar_holder x hx j k (hphy j _ (h.rar_ne x hx) hj)
    entry_listener := fun e he j k hj => h.entry_listener e he j k (hphy j _ (h.entry_ne e he).1 hj)
    command_entry := fun c hc e he h1 h2 j =>
      ⟨fun hj => (h.command_entry c hc e he h1 h2 j).1 (hphy j _ (h.entry_ne e he).1 hj),
        (h.command_entry c hc e he h1 h2 j).2⟩ }

/-- A contention-based access with a preamble that is assigned to no UE and that no response
answers. -/
theorem sendContention (hp : p ≠ 255) (hfree : ∀ e ∈ nc, e.preambleId ≠ p)
    (hrars : ∀ x ∈ rars, x.raPreambleId ≠ p) (k : Nat) :
    RaInv (Function.update phy i p) rnti nc (sent ++ [⟨p, k, true⟩]) rars commands contexts := by
  have hphy : ∀ j q, q ≠ p → Function.update phy i p j = q → phy j = q := by
    intro j q hq hj
    rw [update_apply] at hj
    split at hj
    · exact absurd hj.symm hq
    · exact hj
  refine { h with
    sent_ne := ?_
    rar_holder := fun x hx j k hj => h.rar_holder x hx j k (hphy j _ (hrars x hx) hj)
    entry_listener := fun e he j k hj => h.entry_listener e he j k (hphy j _ (hfree e he) hj)
    command_entry := fun c hc e he h1 h2 j =>
      ⟨fun hj => (h.command_entry c hc e he h1 h2 j).1 (hphy j _ (hfree e he) hj),
        (h.command_entry c hc e he h1 h2 j).2⟩
    unassigned := ?_ }
  · intro x hx
    rcases mem_append.1 hx with hx | hx
    · exact h.sent_ne x hx
    · rw [mem_singleton.1 hx]
      exact hp
  · intro x hx hc e he
    rcases mem_append.1 hx with hx | hx
    · exact h.unassigned x hx hc e he
    · rw [mem_singleton.1 hx]
      exact hfree e he

/-- A UE in handover sends the preamble that is assigned to it; no other UE has its RNTI. -/
theorem sendAssigned {e : NcRaPreambleInfo} (he : e ∈ nc) (hi : rnti i = e.rnti) (k : Nat) :
    RaInv (Function.update phy i e.preambleId) rnti nc (sent ++ [⟨e.preambleId, k, false⟩]) rars
      commands contexts := by
  obtain ⟨hp, hne⟩ := h.entry_ne e he
  have hphy : ∀ j q, Function.update phy i e.preambleId j = q →
      phy j = q ∨ j = i ∧ q = e.preambleId := by
    intro j q hj
    rw [update_apply] at hj
    split at hj
    · next hji => exact .inr ⟨hji, hj.symm⟩
    · exact .inl hj
  refine { h with
    sent_ne := ?_
    rar_holder := ?_
    entry_listener := ?_
    command_entry := ?_
    unassigned := ?_ }
  · intro x hx
    rcases mem_append.1 hx with hx | hx
    · exact h.sent_ne x hx
    · rw [mem_singleton.1 hx]
      exact hp
  · intro x hx j k hj hk h0
    rcases hphy j _ hj with hj | ⟨rfl, hxp⟩
    · exact h.rar_holder x hx j k hj hk h0
    · have hx := (h.rar_entry e he x hx).2 hxp
      exact h.distinct j k (by rw [hi, hk, hx]) (by rw [hi, ← hx]; exact h0)
  · intro e' he' j k hj hk
    rcases hphy j _ hj with hj | ⟨rfl, hep⟩
    · exact h.entry_listener e' he' j k hj hk
    · rw [inj_on_of_nodup_map h.entry_ids he' he hep] at hk
      exact h.distinct j k (hi.trans hk.symm) (hi ▸ hne)
  · intro c hc e' he' h1 h2 j
    refine ⟨fun hj => ?_, (h.command_entry c hc e' he' h1 h2 j).2⟩
    rcases hphy j _ hj with hj | ⟨rfl, hep⟩
    · exact (h.command_entry c hc e' he' h1 h2 j).1 hj
    · refine (h.command_entry c hc e' he' h1 h2 j).2 ?_
      rw [inj_on_of_nodup_map h.entry_ids he' he hep]
      exact hi
  · intro x hx hc e' he'
    rcases mem_append.1 hx with hx | hx
    · exact h.unassigned x hx hc e' he'
    · rw [mem_singleton.1 hx] at hc
      cases hc

/-- A UE takes an RNTI, of a response or of a handover command, that no other UE has or will take.
-/
theorem setRnti (hother : ∀ j, j ≠ i → rnti j = ρ → ρ = 0)
    (hrars : ∀ x ∈ rars, ∀ j, phy j = x.raPreambleId → x.rnti = ρ → ρ ≠ 0 → j = i)
    (hentry : ∀ e ∈ nc, ∀ j, phy j = e.preambleId → e.rnti = ρ → j = i)
    (hcommand : ∀ c ∈ commands, ∀ e ∈ nc, e.rnti = c.1 → e.preambleId = c.2 → e.rnti ≠ ρ) :
    RaInv phy (Function.update rnti i ρ) nc sent rars commands contexts := by
  have hupd : ∀ j q, Function.update rnti i ρ j = q → rnti j = q ∧ j ≠ i ∨ j = i ∧ ρ = q := by
    intro j q hj
    rw [update_apply] at hj
    split at hj
    · next hji => exact .inr ⟨hji, hj⟩
    · next hji => exact .inl ⟨hj, hji⟩
  refine { h with rar_holder := ?_, entry_listener := ?_, command_entry := ?_, distinct := ?_ }
  · intro x hx j k hj hk h0
    rcases hupd k _ hk with hold | ⟨hki, hρ⟩
    · exact h.rar_holder x hx j k hj hold.1 h0
    · rw [hki]
      exact hrars x hx j hj hρ.symm (hρ ▸ h0)
  · intro e he j k hj hk
    rcases hupd k _ hk with hold | ⟨hki, hρ⟩
    · exact h.entry_listener e he j k hj hold.1
    · rw [hki]
      exact hentry e he j hj hρ.symm
  · intro c hc e he h1 h2 j
    refine ⟨(h.command_entry c hc e he h1 h2 j).1, fun hj => ?_⟩
    rcases hupd j _ hj with hold | hnew
    · exact (h.command_entry c hc e he h1 h2 j).2 hold.1
    · exact hcommand c hc e he h1 h2 hnew.2.symm
  · intro j k hjk hj
    rcases hupd j _ rfl with ⟨hjold, hji⟩ | ⟨hji, hjρ⟩
    · rcases hupd k _ hjk.symm with ⟨hkold, -⟩ | ⟨hki, hkρ⟩
      · exact h.distinct j k (hjold.trans hkold.symm) (hjold ▸ hj)
      · exact absurd (hkρ ▸ hother j hji (hjold.trans hkρ.symm)) hj
    · rcases hupd k _ hjk.symm with ⟨hkold, hki⟩ | ⟨hki, -⟩
      · exact absurd (hjρ ▸ hother k hki (hkold.trans hjρ.symm)) hj
      · rw [hji, hki]

theorem clearRnti (i : Fin n) :
    RaInv phy (Function.update rnti i 0) nc sent rars commands contexts :=
  h.setRnti (fun _ _ _ => rfl) (fun _ _ _ _ _ h0 => absurd rfl h0)
    (fun e he _ _ h0 => absurd h0 (h.entry_ne e he).2)
    (fun _ _ e he _ _ => (h.entry_ne e he).2)

/-- A UE takes the RNTI of a response that no other UE expects. -/
theorem takeRar {x : Rar} (hx : x ∈ rars) (hi : phy i = x.raPreambleId)
    (honly : ∀ j, phy j = x.raPreambleId → j = i) :
    RaInv phy (Function.update rnti i x.rnti) nc sent rars commands contexts := by
  refine h.setRnti (fun j hji hj => ?_) (fun y hy j hj hxy h0 => ?_) (fun e he j hj hρ => ?_)
    (fun c hc e he h1 h2 hρ => ?_)
  · by_contra h0
    exact hji (h.rar_holder x hx i j hi hj h0).symm
  · have hid := h.rar_rnti y hy x hx hxy (hxy ▸ h0)
    exact honly j (hj.trans hid)
  · have hid := (h.rar_entry e he x hx).1 hρ.symm
    exact honly j (hj.trans hid.symm)
  · have hid := (h.rar_entry e he x hx).1 hρ.symm
    exact (h.command_entry c hc e he h1 h2 i).1 (hi.trans hid)

theorem takeCommand {c : Nat × Nat} {k : Nat} (hc : commands[k]? = some c)
    {e : NcRaPreambleInfo} (he : e ∈ nc) (h1 : e.rnti = c.1) (h2 : e.preambleId = c.2) :
    RaInv phy (Function.update rnti i e.rnti) nc sent rars (commands.eraseIdx k) contexts := by
  have hmem := mem_of_getElem? hc
  have hfree := h.command_entry c hmem e he h1 h2
  have hrest := h.mono (Sublist.refl nc) (fun _ => id) (fun _ => id)
    (eraseIdx_sublist commands k) h.entry_context
  refine hrest.setRnti (fun j _ hj => absurd hj (hfree j).2) (fun x hx j hj hρ _ => ?_)
    (fun e' he' j hj hρ => ?_) (fun c' hc' e' he' h1' _ hρ => ?_)
  · exact absurd (hj.trans ((h.rar_entry e he x hx).1 hρ)) (hfree j).1
  · rw [inj_on_of_nodup_map h.entry_rntis he' he hρ] at hj
    exact absurd hj (hfree j).1
  · have hlt := (List.getElem?_eq_some_iff.1 hc).1
    have hck : commands[k] = c := (List.getElem?_eq_some_iff.1 hc).2
    have hnodup := h.command_rntis
    rw [← ((getElem_cons_eraseIdx_perm hlt).map Prod.fst).nodup_iff, map_cons, hck,
      nodup_cons] at hnodup
    exact hnodup.1 (mem_map.2 ⟨c', hc', by rw [← h1', hρ, h1]⟩)

/-- A preamble that nobody uses is allocated for a new RNTI, which a handover command carries. -/
theorem allocate (hp : p ≠ 255) (hρ : ρ ≠ 0) (hnew : ρ ∉ contexts) (hquiet : ∀ j, phy j ≠ p)
    (hrnti : ∀ j, rnti j ≠ ρ) (hrars : ∀ x ∈ rars, x.raPreambleId ≠ p ∧ x.rnti ≠ ρ)
    (hsent : ∀ x ∈ sent, x.contention = true → x.preambleId ≠ p)
    (hcommands : ∀ c ∈ commands, c.1 ≠ ρ) (t : Nat) :
    RaInv phy rnti (⟨p, ρ, t⟩ :: Keyed.erase NcRaPreambleInfo.preambleId p nc) sent rars
      (commands ++ [(ρ, p)]) (ρ :: contexts) := by
  have hold : RaInv phy rnti (Keyed.erase NcRaPreambleInfo.preambleId p nc) sent rars commands
      (ρ :: contexts) :=
    h.mono filter_sublist (fun _ => id) (fun _ => id) (Sublist.refl commands)
      fun e he => mem_cons_of_mem _ (h.entry_context e (Keyed.mem_erase.1 he).1)
  have hentryρ : ∀ e ∈ Keyed.erase NcRaPreambleInfo.preambleId p nc, e.rnti ≠ ρ :=
    fun e he heρ => hnew (heρ ▸ h.entry_context e (Keyed.mem_erase.1 he).1)
  refine { hold with
    entry_ne := forall_mem_cons.2 ⟨⟨hp, hρ⟩, hold.entry_ne⟩
    entry_context := forall_mem_cons.2 ⟨mem_cons_self, hold.entry_context⟩
    entry_ids := nodup_cons.2 ⟨fun hm => (Keyed.mem_keys_erase.1 hm).2 rfl, hold.entry_ids⟩
    entry_rntis := nodup_cons.2 ⟨fun hm => ?_, hold.entry_rntis⟩
    command_rntis := ?_
    rar_entry := forall_mem_cons.2 ⟨fun x hx => ?_, hold.rar_entry⟩
    entry_listener := forall_mem_cons.2 ⟨fun j _ hj => absurd hj (hquiet j), hold.entry_listener⟩
    command_entry := ?_
    unassigned := fun x hx hc => forall_mem_cons.2
      ⟨(hsent x hx hc).symm, hold.unassigned x hx hc⟩ }
  · obtain ⟨e, he, heρ⟩ := mem_map.1 hm
    exact hentryρ e he heρ
  · rw [map_append, map_singleton, nodup_append_comm, singleton_append, nodup_cons]
    refine ⟨fun hm => ?_, hold.command_rntis⟩
    obtain ⟨c, hc, hcρ⟩ := mem_map.1 hm
    exact hcommands c hc hcρ
  · exact ⟨fun hxρ => absurd hxρ (hrars x hx).2, fun hxp => absurd hxp (hrars x hx).1⟩
  · intro c hc e he h1 h2 j
    rcases mem_append.1 hc with hc | hc
    · rcases mem_cons.1 he with rfl | he
      · exact absurd h1.symm (hcommands c hc)
      · exact hold.command_entry c hc e he h1 h2 j
    · rw [mem_singleton.1 hc] at h1 h2
      rcases mem_cons.1 he with rfl | he
      · exact ⟨hquiet j, hrnti j⟩
      · exact absurd h1 (hentryρ e he)

end

/-- What a slot answers: to an allocated preamble the RNTI of the allocation, to another one 0 or
the RNTI of a new context. -/
structure Answers (nc : List NcRaPreambleInfo) (contexts : List Nat) (rars : List Rar) : Prop where
  rnti : ∀ x ∈ rars, (∃ e ∈ nc, e.preambleId = x.raPreambleId ∧ e.rnti = x.rnti) ∨
    (∀ e ∈ nc, e.preambleId ≠ x.raPreambleId) ∧ (x.rnti ≠ 0 → x.rnti ∉ contexts)
  new : ∀ x ∈ rars, ∀ y ∈ rars, x.rnti ∉ contexts → x.rnti = y.rnti → x.rnti ≠ 0 →
    x.raPreambleId = y.raPreambleId

theorem Answers.cons (h : Answers nc contexts' rars) (hsub : ∀ ρ ∈ contexts, ρ ∈ contexts')
    (hnc : ∀ e ∈ nc, e.rnti ∈ contexts) (hx : (∃ e ∈ nc, e.preambleId = p ∧ e.rnti = ρ) ∨
      (∀ e ∈ nc, e.preambleId ≠ p) ∧ (ρ ≠ 0 → ρ ∉ contexts ∧ ρ ∈ contexts')) :
    Answers nc contexts (⟨p, ρ⟩ :: rars) := by
  have htail : ∀ y ∈ rars, y.rnti ∉ contexts → y.rnti ≠ 0 → y.rnti ∉ contexts' := by
    intro y hy hyc h0
    rcases h.rnti y hy with ⟨e, he, -, hey⟩ | hno
    · exact absurd (hey ▸ hnc e he) hyc
    · exact hno.2 h0
  have hhead : ρ ∉ contexts → ρ ≠ 0 → ρ ∈ contexts' := by
    intro hρ h0
    rcases hx with ⟨e, he, -, heρ⟩ | hno
    · exact absurd (heρ ▸ hnc e he) hρ
    · exact (hno.2 h0).2
  refine ⟨forall_mem_cons.2 ⟨?_, fun x hx => ?_⟩, forall_mem_cons.2
    ⟨forall_mem_cons.2 ⟨fun _ _ _ => rfl, fun y hy hρ hρy h0 => ?_⟩,
      fun x hx => forall_mem_cons.2 ⟨fun hxc hxρ h0 => ?_, fun y hy hxc hxy h0 => ?_⟩⟩⟩
  · exact hx.imp_right fun hno => ⟨hno.1, fun h0 => (hno.2 h0).1⟩
  · exact (h.rnti x hx).imp_right fun hno => ⟨hno.1, fun h0 hc => hno.2 h0 (hsub _ hc)⟩
  · have hρy : ρ = y.rnti := hρy
    exact absurd (hρy ▸ hhead hρ h0) (htail y hy (hρy ▸ hρ) (hρy ▸ h0))
  · have hxρ : x.rnti = ρ := hxρ
    exact absurd (hxρ ▸ hhead (hxρ ▸ hxc) (hxρ ▸ h0)) (htail x hx hxc h0)
  · exact h.new x hx y hy (htail x hx hxc h0) hxy h0

/-- A slot in which the preambles that were received are answered; a new RNTI is not in use. -/
theorem answer (h : RaInv phy rnti nc sent rars commands contexts)
    (hnew : Answers nc contexts rars')
    (hids : ∀ x ∈ rars', ∃ y ∈ sent, y.preambleId = x.raPreambleId)
    (hunused : ∀ x ∈ rars', x.rnti ≠ 0 → x.rnti ∉ contexts →
      (∀ j, rnti j ≠ x.rnti) ∧ ∀ y ∈ rars, y.rnti ≠ x.rnti)
    (hcontexts : ∀ ρ ∈ contexts, ρ ∈ contexts') :
    RaInv phy rnti nc sent (rars' ++ rars) commands contexts' := by
  -- an RNTI that has a context is that of an allocation
  have hentry : ∀ x ∈ rars', x.rnti ∈ contexts → x.rnti ≠ 0 →
      ∃ e ∈ nc, e.preambleId = x.raPreambleId ∧ e.rnti = x.rnti := by
    intro x hx hxc h0
    exact (hnew.rnti x hx).resolve_right fun hno => hno.2 h0 hxc
  have hsame : ∀ x ∈ rars', ∀ y ∈ rars', x.rnti = y.rnti → x.rnti ≠ 0 →
      x.raPreambleId = y.raPreambleId := by
    intro x hx y hy hxy h0
    by_cases hxc : x.rnti ∈ contexts
    · obtain ⟨e, he, h1, h2⟩ := hentry x hx hxc h0
      obtain ⟨e', he', h1', h2'⟩ := hentry y hy (hxy ▸ hxc) (hxy ▸ h0)
      rw [← h1, ← h1', inj_on_of_nodup_map h.entry_rntis he he' (by rw [h2, h2', hxy])]
    · exact hnew.new x hx y hy hxc hxy h0
  have hcross : ∀ x ∈ rars', ∀ y ∈ rars, x.rnti = y.rnti → x.rnti ≠ 0 →
      x.raPreambleId = y.raPreambleId := by
    intro x hx y hy hxy h0
    have hxc : x.rnti ∈ contexts := by
      by_contra hxc
      exact (hunused x hx h0 hxc).2 y hy hxy.symm
    obtain ⟨e, he, h1, h2⟩ := hentry x hx hxc h0
    rw [← h1, (h.rar_entry e he y hy).1 (by rw [h2, hxy])]
  refine { h with
    rar_ne := forall_mem_append.2 ⟨fun x hx => ?_, h.rar_ne⟩
    entry_context := fun e he => hcontexts _ (h.entry_context e he)
    rar_holder := forall_mem_append.2 ⟨fun x hx j k hj hk h0 => ?_, h.rar_holder⟩
    rar_rnti := forall_mem_append.2 ⟨fun x hx => ?_, fun x hx => ?_⟩
    rar_entry := fun e he => forall_mem_append.2 ⟨fun x hx => ?_, h.rar_entry e he⟩ }
  · obtain ⟨y, hy, hyx⟩ := hids x hx
    exact hyx ▸ h.sent_ne y hy
  · have hxc : x.rnti ∈ contexts := by
      by_contra hxc
      exact (hunused x hx h0 hxc).1 k hk
    obtain ⟨e, he, h1, h2⟩ := hentry x hx hxc h0
    exact h.entry_listener e he j k (hj.trans h1.symm) (hk.trans h2.symm)
  · exact forall_mem_append.2 ⟨hsame x hx, hcross x hx⟩
  · exact forall_mem_append.2
      ⟨fun y hy hxy h0 => (hcross y hy x hx hxy.symm (hxy ▸ h0)).symm, h.rar_rnti x hx⟩
  · obtain ⟨hne, h0⟩ := h.entry_ne e he
    constructor
    · intro hxe
      obtain ⟨e', he', h1, h2⟩ := hentry x hx (hxe ▸ h.entry_context e he) (hxe ▸ h0)
      rw [← h1, inj_on_of_nodup_map h.entry_rntis he' he (h2.trans hxe)]
    · intro hxe
      obtain ⟨e', he', h1, h2⟩ := (hnew.rnti x hx).resolve_right fun hno => hno.1 e he hxe.symm
      rw [← h2, inj_on_of_nodup_map h.entry_ids he' he (h1.trans hxe)]

end RaInv

end OranNs3
