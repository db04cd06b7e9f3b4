import BadgeElfloader.Abi.Context

/-!
The index that an entry of `mapped` keeps of its block.

`map` stores the position that the block gets in `actual`. `unmap` erases a
position from both vectors and leaves the stored indices alone, so that they are
positions only as long as nothing is erased in front of an entry.
-/

namespace BadgeElfloader.Abi

namespace Lifetime

/-- The index in every entry is that of the block out of which its range was
promised. -/
def Indexed (s : Lifetime) : Prop :=
  ∀ (i : ℕ) (m : MemMapped), s.ctx.mapped[i]? = some m → m.actual < s.ctx.actual.length ∧
    ∃ r : Mapping, s.live[i]? = some r ∧ m.promise.base = r.base ∧
      s.ctx.actual[m.actual]? = some r.block

/-- The call is no unmap that finds its range in front of another one. -/
def UnmapsLast (s : Lifetime) : MemOp → Prop
  | .map .. => True
  | .unmap base => ∀ i, (s.ctx.mapped.findIdx? fun m => base == m.promise.base) = some i →
      i + 1 = s.ctx.mapped.length

/-- The index in every entry is its own position. -/
def Positioned (s : Lifetime) : Prop :=
  ∀ (i : ℕ) (m : MemMapped), s.ctx.mapped[i]? = some m → m.actual = i

/-- The indices are right in every state of a run. -/
def IndexedThroughout (ops : List MemOp) : Prop :=
  ∀ before, before <+: ops → ∀ s, before.foldlM Lifetime.exec fresh = some s → s.Indexed

/-- No unmap of a run finds its range in front of another one. -/
def UnmapsFromEnd (ops : List MemOp) : Prop :=
  ∀ before op, before ++ [op] <+: ops →
    ∀ s, before.foldlM Lifetime.exec fresh = some s → s.UnmapsLast op

section indices

variable {s s' : Lifetime} {op : MemOp}

theorem Exact.indexed (h : s.Exact) (hpos : s.Positioned) : s.Indexed := by
  intro i m hm
  obtain ⟨hi, -⟩ := List.getElem?_eq_some_iff.mp hm
  have hbase := congrArg (fun l => l[i]?) h.mapped
  simp only [List.getElem?_map, hm, Option.map_some] at hbase
  obtain ⟨r, hr, hbase⟩ := Option.map_eq_some_iff.mp hbase.symm
  rw [hpos i m hm, h.length_eq, h.actual, List.getElem?_map, hr]
  exact ⟨hi, r, rfl, hbase.symm, rfl⟩

/-- `map` stores the position of the new entry, since the two vectors are of the
same length. -/
theorem Exact.map_positioned (h : s.Exact) (hpos : s.Positioned) {allocator : Allocator}
    {minLength minAlign : Riscv.Word} {allowWrite allowExec : Bool}
    (hexec : s.exec (.map allocator minLength allowWrite allowExec minAlign) = some s') :
    s'.Positioned := by
  obtain hmap | ⟨base, length, mem, hmap⟩ :=
    s.ctx.map_cases allocator minLength allowWrite allowExec minAlign
  · rw [Lifetime.exec_map, hmap] at hexec
    obtain rfl := Option.some.inj hexec
    simpa [Positioned] using hpos
  · rw [Lifetime.exec_map, hmap] at hexec
    obtain rfl := Option.some.inj hexec
    intro i m hm
    simp only [List.getElem?_append] at hm
    split at hm
    · exact hpos i m hm
    · rename_i hge
      obtain ⟨hlt, rfl⟩ := List.getElem?_eq_some_iff.mp hm
      rw [List.length_singleton] at hlt
      simp only [List.getElem_singleton, h.length_eq]
      omega

/-- What an unmap leaves of the context. -/
theorem Exact.unmap_cases (h : s.Exact) {base : Riscv.Word}
    (hexec : s.exec (.unmap base) = some s') :
    (s.ctx.mapped.findIdx? fun m => base == m.promise.base) = none ∧ s' = s ∨
      ∃ i, (s.ctx.mapped.findIdx? fun m => base == m.promise.base) = some i ∧
        s'.ctx.actual = s.ctx.actual.eraseIdx i ∧ s'.ctx.mapped = s.ctx.mapped.eraseIdx i := by
  rw [h.findIdx_eq]
  cases hi : s.live.findIdx? fun m => base == m.base with
  | none =>
      left
      rw [Lifetime.exec, h.unmap_none hi] at hexec
      refine ⟨rfl, ?_⟩
      rw [← Option.some.inj hexec]
      simp
  | some i =>
      right
      obtain ⟨m, hm, -, hunmap⟩ := h.unmap_some hi
      simp only [Lifetime.exec, hunmap, Option.bind_eq_bind, Option.bind_some] at hexec
      obtain rfl := Option.some.inj hexec
      exact ⟨i, rfl, rfl, rfl⟩

/-- One call keeps the indices, unless it erases an entry in front of another. -/
theorem Exact.indexed_exec_iff (h : s.Exact) (hpos : s.Positioned) (hexec : s.exec op = some s') :
    (s'.Indexed ↔ s.UnmapsLast op) ∧ (s.UnmapsLast op → s'.Positioned) := by
  obtain ⟨t, hexec', hexact⟩ := h.exec op
  obtain rfl := Option.some.inj (hexec.symm.trans hexec')
  cases op with
  | map allocator minLength allowWrite allowExec minAlign =>
      have hpos' := h.map_positioned hpos hexec
      exact ⟨iff_of_true (hexact.indexed hpos') trivial, fun _ => hpos'⟩
  | unmap base =>
      obtain ⟨hnone, rfl⟩ | ⟨i, hi, hactual, hmapped⟩ := h.unmap_cases hexec
      · refine ⟨iff_of_true (h.indexed hpos) fun i hi => ?_, fun _ => hpos⟩
        rw [hnone] at hi
        cases hi
      obtain ⟨hlt, -⟩ := List.findIdx?_eq_some_iff_getElem.mp hi
      have hlast : s.UnmapsLast (.unmap base) → s'.Positioned := by
        intro hlast j m hm
        have hend := hlast i hi
        rw [hmapped, List.getElem?_eraseIdx] at hm
        split at hm
        · exact hpos j m hm
        · rw [List.getElem?_eq_none (by omega)] at hm
          cases hm
      refine ⟨⟨fun hindexed k hk => ?_, fun hunmaps => hexact.indexed (hlast hunmaps)⟩, hlast⟩
      obtain rfl := Option.some.inj (hi.symm.trans hk)
      by_contra hne
      -- The entry that was last has an index behind the end of `actual` now.
      have hget : s'.ctx.mapped[s.ctx.mapped.length - 2]? =
          some s.ctx.mapped[s.ctx.mapped.length - 1] := by
        rw [hmapped, List.getElem?_eraseIdx, if_neg (by omega),
          show s.ctx.mapped.length - 2 + 1 = s.ctx.mapped.length - 1 by omega,
          List.getElem?_eq_getElem]
      have hbound := (hindexed _ _ hget).1
      rw [hpos _ _ (List.getElem?_eq_getElem _), hactual, List.length_eraseIdx_of_lt
        (h.length_eq ▸ hlt), h.length_eq] at hbound
      omega

variable {ops : List MemOp}

theorem indexedThroughout_snoc (hrun : (ops ++ [op]).foldlM Lifetime.exec fresh = some s') :
    IndexedThroughout (ops ++ [op]) ↔ IndexedThroughout ops ∧ s'.Indexed := by
  constructor
  · intro h
    exact ⟨fun before hbefore => h before (hbefore.trans (List.prefix_append ops [op])),
      h _ (List.prefix_refl _) _ hrun⟩
  · rintro ⟨hops, hlast⟩ before hbefore s hs
    obtain rfl | hbefore := List.prefix_concat_iff.mp hbefore
    · obtain rfl := Option.some.inj (hrun.symm.trans hs)
      exact hlast
    · exact hops before hbefore s hs

theorem unmapsFromEnd_snoc (hrun : ops.foldlM Lifetime.exec fresh = some s) :
    UnmapsFromEnd (ops ++ [op]) ↔ UnmapsFromEnd ops ∧ s.UnmapsLast op := by
  constructor
  · intro h
    exact ⟨fun before op' hbefore => h before op' (hbefore.trans (List.prefix_append ops [op])),
      h _ _ (List.prefix_refl _) _ hrun⟩
  · rintro ⟨hops, hlast⟩ before op' hbefore t ht
    obtain heq | hbefore := List.prefix_concat_iff.mp hbefore
    · obtain ⟨rfl, hop⟩ := List.append_inj' heq rfl
      obtain rfl := (List.cons.inj hop).1
      obtain rfl := Option.some.inj (hrun.symm.trans ht)
      exact hlast
    · exact hops before op' hbefore t ht

theorem indexedThroughout_nil : IndexedThroughout [] := by
  intro before hbefore s hs
  obtain rfl := List.prefix_nil.mp hbefore
  obtain rfl := Option.some.inj hs
  exact fresh_exact.indexed nofun

theorem unmapsFromEnd_nil : UnmapsFromEnd [] := by
  intro before op hbefore
  simpa using List.prefix_nil.mp hbefore

/-- As long as the unmaps come from the end, every index is its own position. -/
theorem indexed_and_positioned (ops : List MemOp) :
    (IndexedThroughout ops ↔ UnmapsFromEnd ops) ∧
      (UnmapsFromEnd ops → ∀ s, ops.foldlM Lifetime.exec fresh = some s → s.Positioned) := by
  induction ops using List.reverseRecOn with
  | nil =>
      refine ⟨iff_of_true indexedThroughout_nil unmapsFromEnd_nil, fun _ s hs => ?_⟩
      obtain rfl := Option.some.inj hs
      exact nofun
  | append_singleton ops op ih =>
      obtain ⟨s, hs, hexact⟩ := exact_of_run ops
      obtain ⟨s', hop, -⟩ := hexact.exec op
      have hrun : (ops ++ [op]).foldlM Lifetime.exec fresh = some s' := by
        rw [List.foldlM_append, hs]
        simpa using hop
      rw [indexedThroughout_snoc hrun, unmapsFromEnd_snoc hs, ih.1]
      constructor
      · refine and_congr_right fun hops => ?_
        exact (hexact.indexed_exec_iff (ih.2 hops s hs) hop).1
      · rintro ⟨hops, hlast⟩ t ht
        obtain rfl := Option.some.inj (hrun.symm.trans ht)
        exact (hexact.indexed_exec_iff (ih.2 hops s hs) hop).2 hlast

end indices

end Lifetime

/-- The indices are right in all states of a run exactly if no unmap in it finds
its range in front of another one. -/
theorem actual_indices_iff (ops : List MemOp) :
    Lifetime.IndexedThroughout ops ↔ Lifetime.UnmapsFromEnd ops :=
  (Lifetime.indexed_and_positioned ops).1

/-- The first of two ranges is unmapped, and the other keeps the index 1. -/
theorem actual_index_stale : ¬ Lifetime.IndexedThroughout
    [.map (fun length _ _ => ⟨0x3fc01000, length⟩) 64 true false 4,
      .map (fun length _ _ => ⟨0x3fc02000, length⟩) 64 true false 4, .unmap 0x3fc01000] := by
  intro h
  have hindexed := h _ (List.prefix_refl _) _ rfl 0 ⟨⟨0x3fc02000, 64⟩, 1⟩ rfl
  exact absurd hindexed.1 (by decide)

end BadgeElfloader.Abi
