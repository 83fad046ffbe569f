import RemoteDebug.Proofs.Debuggee.Tables

/-!
# Every inferior has an address space of its own

An inferior comes in together with a new address space, and keeps it. So no two registered inferiors ever share one
(`Debuggee.housed_performAll`), and what is written to the memory of an inferior is written to that of no other.
-/

namespace RemoteDebug

open Kernel

namespace Kernel

variable {k k' : Kernel} {space : SpaceCap}

theorem Calls.memory?_eq {p : Call → Prop} (h : Calls p k k')
    (hp : ∀ addr word, ¬ p (.space space (.write addr word))) :
    k'.memory? space = k.memory? space := by
  rw [memory?, memory?, h.space_eq hp]

theorem Calls.length_spaces {p : Call → Prop} (h : Calls p k k') : k'.spaces.length = k.spaces.length := by
  induction h with
  | refl => rfl
  | thread _ _ ih => rw [spaces_callThread, ih]
  | read _ _ ih => exact ih
  | @write k' cap addr word _ _ ih =>
    rw [← ih, writeWord]
    dsimp only
    split
    · exact List.length_modify _ _ _
    · rfl

theorem lt_of_memory? {m : Memory} (h : k.memory? space = some m) : space < k.spaces.length := by
  obtain ⟨sp, hsp, -⟩ := Option.map_eq_some_iff.1 h
  exact (List.getElem?_eq_some_iff.1 hsp).1

end Kernel

namespace Registry

variable {r r' : Registry}

/-- The address space of each inferior. -/
def places (r : Registry) : List (Nat × SpaceCap) := r.inferiors.toList.map fun e => (e.1, e.2.space)

theorem mem_places {pid : Nat} {space : SpaceCap} :
    (pid, space) ∈ r.places ↔ ∃ inf, r.inferior? pid = some inf ∧ inf.space = space := by
  simp only [places, List.mem_map, Prod.exists, Prod.mk.injEq, inferior?_eq_some_iff]
  constructor
  · rintro ⟨pid, inf, hinf, rfl, hspace⟩
    exact ⟨inf, hinf, hspace⟩
  · rintro ⟨inf, hinf, hspace⟩
    exact ⟨pid, inf, hinf, rfl, hspace⟩

theorem places_eq_holdings (r : Registry) : r.places = r.holdings.map fun h => (h.1, h.2.1) := by
  simp [places, holdings, Function.comp_def]

theorem places_of_outline_eq (h : r'.outline = r.outline) : r'.places = r.places := by
  have outline (r : Registry) : r.outline.places = r.places := by
    simp [places, Registry.outline, SlotTable.toList_mapLive, Inferior.outline, Function.comp_def]
  rw [← outline, h, outline]

end Registry

/-- The operations that leave registered which inferiors there are. -/
def Operation.KeepsPlaces : Operation → Prop
  | .addInferior _ _ | .disable _ => False
  | _ => True

namespace Debuggee

variable {d d' : Debuggee} {pid : Nat}

theorem inferiors_disable (d : Debuggee) (pid : Nat) :
    (d.disable pid).2.registry.inferiors = d.registry.inferiors.retire pid ∨
      (d.registry.inferior? pid = none ∧ (d.disable pid).2 = d) := by
  unfold disable
  split
  · rename_i refused
    exact .inr ⟨Registry.inferior?_of_disable_error refused, rfl⟩
  · rename_i r hr
    unfold Registry.disable at hr
    split at hr
    · cases hr
    · simp only [Except.ok.injEq] at hr
      rw [← hr]
      dsimp only
      left
      split <;> rfl

/-- An inferior that is left was there before. -/
theorem inferior?_disable {inf : Inferior} {pid' : Nat} (h : (d.disable pid').2.registry.inferior? pid = some inf) :
    d.registry.inferior? pid = some inf := by
  rcases d.inferiors_disable pid' with retired | ⟨-, same⟩
  · unfold Registry.inferior? at h ⊢
    rw [retired] at h
    by_cases hpid : pid' = pid
    · subst hpid
      rw [SlotTable.get?_retire] at h
      cases h
    · rwa [SlotTable.get?_retire_of_ne hpid] at h
  · rwa [same] at h

/-- The other inferiors are left. -/
theorem inferior?_disable_of_ne {pid' : Nat} (h : pid' ≠ pid) :
    (d.disable pid').2.registry.inferior? pid = d.registry.inferior? pid := by
  rcases d.inferiors_disable pid' with retired | ⟨-, same⟩
  · rw [Registry.inferior?, retired, SlotTable.get?_retire_of_ne h, Registry.inferior?]
  · rw [same]

/-- The inferior itself is gone. -/
theorem inferior?_disable_self (d : Debuggee) (pid : Nat) : (d.disable pid).2.registry.inferior? pid = none := by
  rcases d.inferiors_disable pid with retired | ⟨unknown, same⟩
  · rw [Registry.inferior?, retired, SlotTable.get?_retire]
  · rw [same, unknown]

/-- An inferior that is there now was there before, or has just come in with a bare table and its memory. -/
theorem inferior?_addInferior {native : UInt64} {space : Space} {inf : Inferior}
    (h : (d.perform (.addInferior native space)).registry.inferior? pid = some inf) :
    d.registry.inferior? pid = some inf ∨
      (inf.breakpoints = BreakpointTable.empty d.registry.maxPatches ∧
        (d.perform (.addInferior native space)).kernel.memory? inf.space = some space.memory) := by
  have added := addedInferior_addInferior (d.makeSpace space).2 native (d.makeSpace space).1
  change ((d.makeSpace space).2.addInferior native (d.makeSpace space).1).2.registry.inferior? pid = some inf at h
  change _ ∨ (_ ∧ ((d.makeSpace space).2.addInferior native (d.makeSpace space).1).2.kernel.memory? inf.space = _)
  generalize ((d.makeSpace space).2.addInferior native (d.makeSpace space).1).2 = d' at added h ⊢
  cases added with
  | refused => exact .inl h
  | done _ before after =>
    have before : d.registry.inferiors.toList = _ := before
    rw [Registry.inferior?_eq_some_iff, after, List.mem_append, List.mem_cons] at h
    rcases h with old | new | old
    · exact .inl (Registry.inferior?_eq_some_iff.2 (before ▸ List.mem_append_left _ old))
    · cases new
      exact .inr ⟨rfl, by simp [memory?, makeSpace, addSpace]⟩
    · exact .inl (Registry.inferior?_eq_some_iff.2 (before ▸ List.mem_append_right _ old))

/-- Every inferior has an address space, and no two share one. -/
structure Housed (d : Debuggee) : Prop where
  made : ∀ pid space, (pid, space) ∈ d.registry.places → space < d.kernel.spaces.length
  apart : ∀ pid pid' space, (pid, space) ∈ d.registry.places → (pid', space) ∈ d.registry.places → pid = pid'

theorem housed_empty (maxInferiors maxThreads maxPatches : Nat) :
    (empty maxInferiors maxThreads maxPatches).Housed := by
  refine ⟨?_, ?_⟩ <;> simp [empty, Registry.empty, Registry.places]

theorem Housed.of_subset (h : d.Housed) (grown : d.kernel.spaces.length ≤ d'.kernel.spaces.length)
    (old : d'.registry.places ⊆ d.registry.places) : d'.Housed :=
  ⟨fun pid space hmem => Nat.lt_of_lt_of_le (h.made pid space (old hmem)) grown,
    fun pid pid' space hmem hmem' => h.apart pid pid' space (old hmem) (old hmem')⟩

theorem length_spaces_perform (d : Debuggee) (op : Operation) :
    d.kernel.spaces.length ≤ (d.perform op).kernel.spaces.length := by
  have allocated : d.kernel.spaces.length ≤ (op.allocate d.kernel).spaces.length := by
    cases op <;> simp [Operation.allocate, Kernel.addThread, Kernel.addSpace]
  rw [(d.calls_perform_any op).length_spaces]
  exact allocated

theorem housed_addInferior (h : d.Housed) (native : UInt64) (space : Space) :
    (d.perform (.addInferior native space)).Housed := by
  have added := addedInferior_addInferior (d.makeSpace space).2 native (d.makeSpace space).1
  show ((d.makeSpace space).2.addInferior native (d.makeSpace space).1).2.Housed
  have made : (d.makeSpace space).2.Housed := h.of_subset (by simp [makeSpace, Kernel.addSpace]) (List.Subset.refl _)
  generalize ((d.makeSpace space).2.addInferior native (d.makeSpace space).1).2 = d' at added ⊢
  cases added with
  | refused => exact made
  | @done pid inferiors p q _ before after =>
    have new (pid' : Nat) (cap : SpaceCap) (hmem : (pid', cap) ∈ Registry.places { d.registry with inferiors }) :
        (pid', cap) ∈ d.registry.places ∨ (pid', cap) = (pid, d.kernel.spaces.length) := by
      have old : d.registry.places = p.map (fun e => (e.1, e.2.space)) ++ q.map fun e => (e.1, e.2.space) := by
        rw [← List.map_append, ← before]
        rfl
      rw [Registry.places, after, List.map_append, List.map_cons] at hmem
      rw [old, List.mem_append]
      rcases List.mem_append.1 hmem with hp | hmem
      · exact .inl (.inl hp)
      · exact (List.mem_cons.1 hmem).symm.imp_left .inr
    -- the new address space has a number that none has had before
    have ne {pid' : Nat} {cap : SpaceCap} (hmem : (pid', cap) ∈ d.registry.places) : cap ≠ d.kernel.spaces.length :=
      Nat.ne_of_lt (h.made pid' cap hmem)
    refine ⟨fun pid' cap hmem => ?_, fun pid₁ pid₂ cap hmem₁ hmem₂ => ?_⟩
    · rcases new pid' cap hmem with old | heq
      · exact made.made pid' cap old
      · rw [(Prod.mk.inj heq).2]
        simp [makeSpace, Kernel.addSpace]
    · rcases new pid₁ cap hmem₁ with old₁ | heq₁
      · rcases new pid₂ cap hmem₂ with old₂ | heq₂
        · exact h.apart pid₁ pid₂ cap old₁ old₂
        · exact absurd (Prod.mk.inj heq₂).2 (ne old₁)
      · rcases new pid₂ cap hmem₂ with old₂ | heq₂
        · exact absurd (Prod.mk.inj heq₁).2 (ne old₂)
        · rw [(Prod.mk.inj heq₁).1, (Prod.mk.inj heq₂).1]

theorem places_perform {op : Operation} (h : op.KeepsPlaces) : (d.perform op).registry.places = d.registry.places := by
  by_cases hkeeps : op.KeepsHoldings
  · rw [Registry.places_eq_holdings, holdings_perform hkeeps, ← Registry.places_eq_holdings]
  · have hroster : op.KeepsRoster := by
      cases op with
      | addInferior | disable => exact h.elim
      | addThread | exit => exact absurd trivial hkeeps
      | _ => trivial
    refine Registry.places_of_outline_eq (outline_perform hroster ?_)
    rintro t rfl
    exact hkeeps trivial

theorem housed_perform (h : d.Housed) (op : Operation) : (d.perform op).Housed := by
  have grown := length_spaces_perform d op
  by_cases hkeeps : op.KeepsPlaces
  · refine h.of_subset grown ?_
    rw [places_perform hkeeps]
    exact List.Subset.refl _
  · cases op with
    | addInferior native space => exact housed_addInferior h native space
    | disable pid =>
      refine h.of_subset grown fun e hmem => ?_
      obtain ⟨inf, hinf, hspace⟩ := Registry.mem_places.1 hmem
      exact Registry.mem_places.2 ⟨inf, inferior?_disable hinf, hspace⟩
    | _ => exact absurd trivial hkeeps

/-- An inferior stays where it is until it is let go of. -/
theorem mem_places_perform {space : SpaceCap} (h : (pid, space) ∈ d.registry.places) {op : Operation}
    (stays : op ≠ .disable pid) : (pid, space) ∈ (d.perform op).registry.places := by
  by_cases hkeeps : op.KeepsPlaces
  · rw [places_perform hkeeps]
    exact h
  · cases op with
    | addInferior native cap =>
      have added := addedInferior_addInferior (d.makeSpace cap).2 native (d.makeSpace cap).1
      show (pid, space) ∈ ((d.makeSpace cap).2.addInferior native (d.makeSpace cap).1).2.registry.places
      generalize ((d.makeSpace cap).2.addInferior native (d.makeSpace cap).1).2 = d' at added ⊢
      cases added with
      | refused => exact h
      | done _ before after =>
        obtain ⟨e, he, heq⟩ := List.mem_map.1 h
        refine List.mem_map.2 ⟨e, ?_, heq⟩
        rw [show (d.makeSpace cap).2.registry = d.registry from rfl] at before
        rw [before] at he
        rw [after]
        rcases List.mem_append.1 he with hp | hq
        · exact List.mem_append_left _ hp
        · exact List.mem_append_right _ (List.mem_cons_of_mem _ hq)
    | disable pid' =>
      obtain ⟨inf, hinf, hspace⟩ := Registry.mem_places.1 h
      have other : pid' ≠ pid := fun heq => stays (heq ▸ rfl)
      exact Registry.mem_places.2 ⟨inf, (inferior?_disable_of_ne other).trans hinf, hspace⟩
    | _ => exact absurd trivial hkeeps

theorem housed_performAll (h : d.Housed) (ops : List Operation) : (d.performAll ops).Housed := by
  induction ops generalizing d with
  | nil => exact h
  | cons op ops ih => exact ih (housed_perform h op)

end Debuggee
end RemoteDebug
