import AgentC.Alloc.BlobRollback

/-! Rolling blobs back is exact for the runs that keep to the last slab since its checkpoint. -/

namespace AgentC

/-- Every blob reads back as it was stored, and no two of them overlap. -/
structure BlobRun.Intact (s : BlobRun) : Prop where
  readable : ∀ blob ∈ s.blobs, s.now.readBlob blob.1 blob.2.length = some blob.2
  disjoint : s.blobs.Pairwise Blob.Apart

/-- A step leaves the blobs intact, and a rollback restores how far every slab was filled. -/
def BlobRun.Restores (s : BlobRun) (call : BlobCall) : Prop :=
  ∀ next, s.step call = some next → next.Intact ∧
    (call = .rollback → ∀ frame ∈ s.frames.head?, ∀ i,
      next.now.fillLevel i = frame.start.fillLevel i)

/--
What the checkpoint's watermark has to determine.

Without slabs at the checkpoint there may be none now.
The last slab there was may not have been full, and no blob may have been stored before it since.
-/
def BlobFrame.Restorable (frame : BlobFrame) (s : BlobRun) : Prop :=
  match frame.start.slabs frame.token.watermark.first with
  | none => s.now.slabs 0 = none
  | some slab => slab.count < BlobSlab.size ∧
      ∀ blob ∈ s.blobs, blob ∉ frame.blobs → frame.token.watermark.first ≤ blob.1.first

def BlobRun.Restorable (s : BlobRun) (call : BlobCall) : Prop :=
  call = .rollback → ∀ frame ∈ s.frames.head?, frame.Restorable s

namespace BlobAllocator

variable {s t : BlobAllocator} {new blobs : List Blob}

theorem Sound.congr (sound : Sound s) (same : t.slabs = s.slabs) : Sound t where
  contiguous := by
    rw [same]
    exact sound.contiguous
  within := by
    rw [same]
    exact sound.within
  sentinel := by
    rw [same]
    exact sound.sentinel
  inRange := by
    rw [same]
    exact sound.inRange

theorem Since.congr {u : BlobAllocator} (since : Since s new t) (same : u.slabs = t.slabs) :
    Since s new u where
  slabs := by
    rw [same]
    exact since.slabs

/-- Blobs that are held, in places of their own. -/
structure Held (s : BlobAllocator) (blobs : List Blob) : Prop where
  holds : ∀ blob ∈ blobs, s.Holds blob
  disjoint : blobs.Pairwise Blob.Apart

theorem Held.since (held : Held s blobs) (since : Since s new t) : Held t blobs where
  holds := fun blob member => (held.holds blob member).since since
  disjoint := held.disjoint

theorem Holds.readBlob {blob : Blob} (holds : s.Holds blob) :
    s.readBlob blob.1 blob.2.length = some blob.2 := by
  obtain ⟨slab, found, -, same⟩ := holds.stored
  unfold BlobAllocator.readBlob
  rw [if_pos (by simp [holds.address.1, holds.address.2]), found]
  exact congrArg some same

theorem Holds.not_apart {blob : Blob} (holds : s.Holds blob) : ¬ Blob.Apart blob blob := by
  have length := List.length_pos_of_ne_nil holds.bytes
  rintro (first | before | before)
  · exact first rfl
  · omega
  · omega

/-- The open checkpoints, each with what has happened until the next one or until now. -/
def Nested : List BlobFrame → BlobAllocator → List Blob → Prop
  | [], now, _ => now.checkpointWatermarks = []
  | frame :: outer, now, blobs =>
    frame.token = frame.start.checkpoint.1 ∧
    now.checkpointWatermarks = frame.start.currentWatermark :: frame.start.checkpointWatermarks ∧
    (∃ new, blobs = new ++ frame.blobs ∧ Since frame.start new now) ∧
    Sound frame.start ∧ Held frame.start frame.blobs ∧ Nested outer frame.start frame.blobs

theorem Nested.since {frames : List BlobFrame} (nested : Nested frames s blobs)
    (since : Since s new t) (checkpoints : t.checkpointWatermarks = s.checkpointWatermarks) :
    Nested frames t (new ++ blobs) := by
  cases frames with
  | nil => exact checkpoints.trans nested
  | cons frame outer =>
    obtain ⟨token, stack, ⟨old, rfl, earlier⟩, sound, held, outside⟩ := nested
    refine ⟨token, checkpoints.trans stack, ⟨new ++ old, ?_, earlier.trans since⟩, sound, held,
      outside⟩
    exact (List.append_assoc new old frame.blobs).symm

end BlobAllocator

namespace BlobFrame

variable {frame : BlobFrame} {s : BlobAllocator} {new : List Blob}

theorem accepts (token : frame.token = frame.start.checkpoint.1)
    (stack : s.checkpointWatermarks =
      frame.start.currentWatermark :: frame.start.checkpointWatermarks) :
    s.accepts frame.token = true := by
  rw [token]
  simp [BlobAllocator.accepts, BlobAllocator.checkpoint, stack]

/-- The slabs that a rollback leaves. -/
def restored (frame : BlobFrame) (s : BlobAllocator) : BlobAllocator where
  slabs := fun i =>
    if frame.token.watermark.first < i then (s.slabs i).map (·.setCount 0)
    else if i = frame.token.watermark.first then
      (s.slabs i).map (·.setCount frame.token.watermark.second)
    else s.slabs i
  checkpointWatermarks := s.checkpointWatermarks.tail

theorem rollback_eq (accepted : s.accepts frame.token = true) :
    s.rollback frame.token = (true, frame.restored s) :=
  if_pos accepted

theorem restored_before {i : Nat} (before : i < frame.token.watermark.first) :
    (frame.restored s).slabs i = s.slabs i := by
  show (if _ then _ else if _ then _ else _) = _
  rw [if_neg (by omega), if_neg (by omega)]

theorem restored_at : (frame.restored s).slabs frame.token.watermark.first =
    (s.slabs frame.token.watermark.first).map (·.setCount frame.token.watermark.second) := by
  show (if _ then _ else if _ then _ else _) = _
  rw [if_neg (Nat.lt_irrefl _), if_pos rfl]

theorem restored_after {i : Nat} (after : frame.token.watermark.first < i) :
    (frame.restored s).slabs i = (s.slabs i).map (·.setCount 0) :=
  if_pos after

theorem isSome_restored (i : Nat) : ((frame.restored s).slabs i).isSome = (s.slabs i).isSome := by
  rcases Nat.lt_trichotomy i frame.token.watermark.first with before | rfl | after
  · rw [restored_before before]
  · rw [restored_at, Option.isSome_map]
  · rw [restored_after after, Option.isSome_map]

/-- What a rollback knows of the allocator: the checkpoint, and what was stored since. -/
structure Rewound (frame : BlobFrame) (new : List Blob) (s : BlobAllocator) : Prop where
  token : frame.token = frame.start.checkpoint.1
  earlier : BlobAllocator.Sound frame.start
  since : BlobAllocator.Since frame.start new s
  sound : BlobAllocator.Sound s

theorem Rewound.watermark (rewound : Rewound frame new s) :
    frame.token.watermark = frame.start.currentWatermark := by
  rw [rewound.token]
  rfl

theorem Rewound.empty (rewound : Rewound frame new s) (none : ∀ i, frame.start.slabs i = none)
    (still : s.slabs 0 = .none) :
    BlobAllocator.Sound (frame.restored s) ∧ BlobAllocator.Since frame.start [] (frame.restored s) ∧
      ∀ i, (frame.restored s).fillLevel i = frame.start.fillLevel i := by
  -- Without a first slab there is no other, so there is nothing to cut.
  have missing : ∀ i, s.slabs i = .none := by
    intro i
    by_contra there
    rcases Nat.eq_zero_or_pos i with rfl | positive
    · exact there still
    · have first := rewound.sound.contiguous 0 i positive (Option.isSome_iff_ne_none.mpr there)
      rw [still] at first
      cases first
  have gone : (frame.restored s).slabs = s.slabs := by
    funext i
    have absent : ((frame.restored s).slabs i).isSome = _ := isSome_restored i
    rw [missing] at absent ⊢
    exact Option.not_isSome_iff_eq_none.mp (by rw [absent]; exact Bool.false_ne_true)
  refine ⟨rewound.sound.congr gone, ⟨fun i old found => ?_⟩, fun i => ?_⟩
  · rw [none] at found
    cases found
  · unfold BlobAllocator.fillLevel
    rw [gone, missing, none]

theorem Rewound.slabs (rewound : Rewound frame new s) {last : Nat} {full : BlobSlab}
    (found : frame.start.slabs last = some full) (top : ∀ j, last < j → frame.start.slabs j = none)
    (watermark : frame.token.watermark = ⟨last, full.count⟩)
    (behind : ∀ blob ∈ new, last ≤ blob.1.first) (i : Nat) :
    (∃ old slab, frame.start.slabs i = some old ∧ (frame.restored s).slabs i = some slab ∧
      slab.count = old.count ∧ ∀ k, k < old.count → slab.bytes k = old.bytes k) ∨
    last < i ∧ frame.start.slabs i = none ∧
      (frame.restored s).slabs i = (s.slabs i).map (·.setCount 0) := by
  have mark : frame.token.watermark.first = last := congrArg SlabId.first watermark
  rcases Nat.lt_trichotomy i last with before | rfl | after
  · -- An earlier slab was not stored in, so it is as full as it was.
    obtain ⟨old, there⟩ := Option.isSome_iff_exists.mp
      (rewound.earlier.contiguous i last before (by rw [found]; rfl))
    obtain ⟨slab, now, grown, same, filled⟩ := rewound.since.slabs i old there
    refine Or.inl ⟨old, slab, there, ?_, ?_, same⟩
    · rw [restored_before (by omega), now]
    · by_contra more
      obtain ⟨blob, member, here⟩ := filled.mp (by omega)
      have inside := behind blob member
      omega
  · -- The watermark's slab is cut to where it ended.
    obtain ⟨slab, now, grown, same, -⟩ := rewound.since.slabs i full found
    refine Or.inl ⟨full, slab.setCount full.count, found, ?_, rfl, same⟩
    have cut : (frame.restored s).slabs frame.token.watermark.first = _ := restored_at
    rw [mark, now] at cut
    rw [cut, watermark]
    rfl
  · exact Or.inr ⟨after, top i after, restored_after (by omega)⟩

theorem Rewound.filled (rewound : Rewound frame new s) {last : Nat} {full : BlobSlab}
    (found : frame.start.slabs last = some full) (top : ∀ j, last < j → frame.start.slabs j = none)
    (watermark : frame.token.watermark = ⟨last, full.count⟩)
    (behind : ∀ blob ∈ new, last ≤ blob.1.first) :
    BlobAllocator.Sound (frame.restored s) ∧ BlobAllocator.Since frame.start [] (frame.restored s) ∧
      ∀ i, (frame.restored s).fillLevel i = frame.start.fillLevel i := by
  have left := rewound.slabs found top watermark behind
  refine ⟨⟨fun i j below there => ?_, fun i slab there => ?_, fun slab there => ?_, fun i there => ?_⟩,
    ⟨fun i old there => ?_⟩, fun i => ?_⟩
  · rw [isSome_restored] at there ⊢
    exact rewound.sound.contiguous i j below there
  · rcases left i with ⟨old, cut, start, now, count, -⟩ | ⟨-, -, now⟩
    · cases now.symm.trans there
      rw [count]
      exact rewound.earlier.within i old start
    · obtain ⟨emptied, -, rfl⟩ := Option.map_eq_some_iff.mp (now.symm.trans there)
      exact Nat.zero_le _
  · rcases left 0 with ⟨old, cut, start, now, count, -⟩ | ⟨after, -, -⟩
    · cases now.symm.trans there
      rw [count]
      exact rewound.earlier.sentinel old start
    · exact absurd after (Nat.not_lt_zero last)
  · rw [isSome_restored] at there
    exact rewound.sound.inRange i there
  · rcases left i with ⟨same, cut, start, now, count, bytes⟩ | ⟨-, start, -⟩
    · cases start.symm.trans there
      refine ⟨cut, now, by omega, bytes, ?_⟩
      simp [count]
    · rw [start] at there
      cases there
  · unfold BlobAllocator.fillLevel
    rcases left i with ⟨old, cut, start, now, count, -⟩ | ⟨after, start, now⟩
    · rw [start, now]
      exact count
    · rw [start, now]
      cases s.slabs i with
      | none => rfl
      | some slab =>
        show 0 = if i = 0 then 1 else 0
        rw [if_neg (by omega)]

end BlobFrame

end AgentC
