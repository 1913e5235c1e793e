import AgentC.Alloc.BlobRuns

/-! Exactness of blob rollback over whole runs, and the three ways of missing it. -/

namespace AgentC

namespace BlobRun

variable {s next : BlobRun} {call : BlobCall} {frame : BlobFrame} {outer : List BlobFrame}

/-- What every run keeps: sound slabs, blobs in places of their own, and nested checkpoints. -/
structure Consistent (s : BlobRun) : Prop where
  sound : BlobAllocator.Sound s.now
  held : BlobAllocator.Held s.now s.blobs
  nested : BlobAllocator.Nested s.frames s.now s.blobs

theorem Consistent.intact (consistent : Consistent s) : s.Intact where
  readable := fun blob member => (consistent.held.holds blob member).readBlob
  disjoint := consistent.held.disjoint

theorem consistent_initial : Consistent initial where
  sound :=
    { contiguous := fun _ _ _ there => by cases there
      within := fun _ _ found => by cases found
      sentinel := fun _ found => by cases found
      inRange := fun _ there => by cases there }
  held := ⟨List.forall_mem_nil _, List.Pairwise.nil⟩
  nested := rfl

theorem Consistent.rewound (consistent : Consistent s) (frames : s.frames = frame :: outer) :
    s.now.accepts frame.token = true ∧
      ∃ new, s.blobs = new ++ frame.blobs ∧ frame.Rewound new s.now := by
  have nested := consistent.nested
  rw [frames] at nested
  obtain ⟨token, stack, ⟨new, blobs, since⟩, earlier, -, -⟩ := nested
  exact ⟨BlobFrame.accepts token stack, new, blobs, token, earlier, since, consistent.sound⟩

theorem Consistent.not_mem (consistent : Consistent s) {new : List Blob}
    (blobs : s.blobs = new ++ frame.blobs) {blob : Blob} (member : blob ∈ new) :
    blob ∉ frame.blobs := by
  intro old
  have all := consistent.held
  rw [blobs] at all
  -- It would have to share no byte with itself.
  have apart := (List.pairwise_append.mp all.disjoint).2.2 blob member blob old
  exact (all.holds blob (List.mem_append_left _ member)).not_apart apart

theorem Consistent.restored (consistent : Consistent s) (frames : s.frames = frame :: outer)
    (restorable : frame.Restorable s) :
    BlobAllocator.Sound (frame.restored s.now) ∧
      BlobAllocator.Since frame.start [] (frame.restored s.now) ∧
      ∀ i, (frame.restored s.now).fillLevel i = frame.start.fillLevel i := by
  obtain ⟨-, new, blobs, rewound⟩ := consistent.rewound frames
  have watermark := rewound.watermark
  unfold BlobFrame.Restorable at restorable
  rcases BlobAllocator.currentWatermark_cases rewound.earlier with
    ⟨none, -⟩ | ⟨last, full, found, top, mark⟩
  · rw [none] at restorable
    exact rewound.empty none restorable
  · rw [mark] at watermark
    have first : frame.token.watermark.first = last := congrArg SlabId.first watermark
    rw [first, found] at restorable
    obtain ⟨room, behind⟩ := restorable
    -- The fill level fits in 16 bits, so the watermark tells it.
    have offset : full.count % 65536 = full.count := by
      unfold BlobSlab.size at room
      omega
    rw [offset] at watermark
    refine rewound.filled found top watermark fun blob member => ?_
    exact behind blob (blobs ▸ List.mem_append_left _ member) (consistent.not_mem blobs member)

end BlobRun

namespace BlobFrame.Rewound

variable {frame : BlobFrame} {new : List Blob} {s : BlobAllocator} {i : Nat} {old cut : BlobSlab}

theorem level (same : ∀ i, (frame.restored s).fillLevel i = frame.start.fillLevel i)
    (there : frame.start.slabs i = some old) (left : (frame.restored s).slabs i = some cut) :
    cut.count = old.count := by
  have level := same i
  unfold BlobAllocator.fillLevel at level
  rw [there, left] at level
  exact level

theorem still (watermark : frame.token.watermark = ⟨0, 0⟩) (none : frame.start.slabs 0 = none)
    (same : ∀ i, (frame.restored s).fillLevel i = frame.start.fillLevel i) :
    s.slabs 0 = .none := by
  by_contra there
  obtain ⟨slab, now⟩ := Option.ne_none_iff_exists'.mp there
  have cut : (frame.restored s).slabs frame.token.watermark.first = _ := restored_at
  have first := same 0
  unfold BlobAllocator.fillLevel at first
  rw [watermark, now] at cut
  rw [cut, none] at first
  cases first

theorem room (rewound : Rewound frame new s) {last : Nat} {full : BlobSlab}
    (found : frame.start.slabs last = some full)
    (watermark : frame.token.watermark = ⟨last, full.count % 65536⟩)
    (same : ∀ i, (frame.restored s).fillLevel i = frame.start.fillLevel i) :
    full.count < BlobSlab.size := by
  have fits := rewound.earlier.within last full found
  obtain ⟨slab, now, -⟩ := rewound.since.slabs last full found
  have cut : (frame.restored s).slabs frame.token.watermark.first = _ := restored_at
  rw [watermark, now] at cut
  have kept : full.count % 65536 = full.count := level same found cut
  unfold BlobSlab.size at fits ⊢
  omega

theorem behind (rewound : Rewound frame new s) {last : Nat} {full : BlobSlab}
    (found : frame.start.slabs last = some full) (first : frame.token.watermark.first = last)
    (same : ∀ i, (frame.restored s).fillLevel i = frame.start.fillLevel i) :
    ∀ blob ∈ new, last ≤ blob.1.first := by
  intro blob isNew
  by_contra before
  obtain ⟨old, there⟩ := Option.isSome_iff_exists.mp
    (rewound.earlier.contiguous blob.1.first last (by omega) (by rw [found]; rfl))
  obtain ⟨slab, now, -, -, filled⟩ := rewound.since.slabs blob.1.first old there
  have fuller : old.count < slab.count := filled.mpr ⟨blob, isNew, rfl⟩
  have left : (frame.restored s).slabs blob.1.first = some slab := by
    rw [restored_before (by omega), now]
  have kept := level same there left
  omega

end BlobFrame.Rewound

namespace BlobRun

variable {s next : BlobRun} {call : BlobCall} {frame : BlobFrame} {outer : List BlobFrame}

theorem Consistent.restorable (consistent : Consistent s) (frames : s.frames = frame :: outer)
    (same : ∀ i, (frame.restored s.now).fillLevel i = frame.start.fillLevel i) :
    frame.Restorable s := by
  obtain ⟨-, new, blobs, rewound⟩ := consistent.rewound frames
  have watermark := rewound.watermark
  unfold BlobFrame.Restorable
  rcases BlobAllocator.currentWatermark_cases rewound.earlier with
    ⟨none, mark⟩ | ⟨last, full, found, top, mark⟩
  · rw [none]
    exact BlobFrame.Rewound.still (watermark.trans mark) (none 0) same
  · rw [mark] at watermark
    have first : frame.token.watermark.first = last := congrArg SlabId.first watermark
    rw [first, found]
    refine ⟨rewound.room found watermark same, fun blob member recent => ?_⟩
    rw [blobs] at member
    exact rewound.behind found first same blob ((List.mem_append.mp member).resolve_right recent)

theorem step_allocate (create : Nat → Option (Nat → UInt8)) (data : List UInt8) :
    s.step (.allocate create data) = some { s with
      now := (s.now.allocate create data).2
      blobs := record s.blobs data (s.now.allocate create data).1 } := rfl

theorem Consistent.allocate (consistent : Consistent s) (create : Nat → Option (Nat → UInt8))
    (data : List UInt8) (stepped : s.step (.allocate create data) = some next) :
    Consistent next := by
  rw [step_allocate] at stepped
  obtain rfl := Option.some.inj stepped
  obtain ⟨sound, held, nested⟩ := consistent
  by_cases bytes : data = []
  · -- Nothing is stored.
    rw [bytes, BlobAllocator.allocate_nil]
    exact ⟨sound, held, nested⟩
  · obtain ⟨soundNext, checkpoints, new, blobs, since, holds, among, apart⟩ :=
      (BlobAllocator.allocate_allocated sound create data).recorded s.blobs bytes
    refine ⟨soundNext, ⟨?_, ?_⟩, ?_⟩
    · show ∀ blob ∈ record s.blobs data _, _
      rw [blobs]
      intro blob member
      rcases List.mem_append.mp member with isNew | old
      · exact holds blob isNew
      · exact (held.holds blob old).since since
    · show List.Pairwise _ (record s.blobs data _)
      rw [blobs]
      refine List.pairwise_append.mpr ⟨among, held.disjoint, fun blob isNew old member => ?_⟩
      exact apart blob isNew old (held.holds old member)
    · show BlobAllocator.Nested s.frames _ (record s.blobs data _)
      rw [blobs]
      exact nested.since since checkpoints

theorem Consistent.checkpoint (consistent : Consistent s)
    (stepped : s.step .checkpoint = some next) : Consistent next := by
  obtain rfl := Option.some.inj stepped
  obtain ⟨sound, held, nested⟩ := consistent
  have nothing : BlobAllocator.Since s.now [] s.now.checkpoint.2 :=
    (BlobAllocator.Created.refl s.now).since.congr rfl
  exact ⟨sound.congr rfl, held.since nothing, rfl, rfl, ⟨[], rfl, nothing⟩, sound, held, nested⟩

theorem Consistent.commit (consistent : Consistent s) (stepped : s.step .commit = some next) :
    Consistent next := by
  cases frames : s.frames with
  | nil => simp [BlobRun.step, frames] at stepped
  | cons frame outer =>
    have step : s.step .commit =
        some { s with now := (s.now.commit frame.token).2, frames := outer } := by
      simp only [BlobRun.step, frames]
    obtain rfl := Option.some.inj (step.symm.trans stepped)
    obtain ⟨accepted, new, blobs, rewound⟩ := consistent.rewound frames
    obtain ⟨sound, held, nested⟩ := consistent
    rw [frames] at nested
    obtain ⟨-, stack, -, -, -, outside⟩ := nested
    have committed : s.now.commit frame.token = (true,
        { s.now with checkpointWatermarks := s.now.checkpointWatermarks.tail }) := if_pos accepted
    rw [committed]
    refine ⟨sound.congr rfl, ⟨fun blob member => ?_, held.disjoint⟩, ?_⟩
    · exact (held.holds blob member).since ((BlobAllocator.Created.refl s.now).since.congr rfl)
    · show BlobAllocator.Nested outer _ s.blobs
      rw [blobs]
      refine outside.since (rewound.since.congr rfl) ?_
      show s.now.checkpointWatermarks.tail = _
      rw [stack]
      rfl

theorem Consistent.step_rollback (consistent : Consistent s) (frames : s.frames = frame :: outer) :
    s.step .rollback = some ⟨frame.restored s.now, frame.blobs, outer⟩ := by
  obtain ⟨accepted, -⟩ := consistent.rewound frames
  simp only [BlobRun.step, frames, BlobFrame.rollback_eq accepted]

theorem Consistent.rollback (consistent : Consistent s) (frames : s.frames = frame :: outer)
    (restorable : frame.Restorable s) :
    Consistent ⟨frame.restored s.now, frame.blobs, outer⟩ := by
  obtain ⟨sound, since, -⟩ := consistent.restored frames restorable
  have nested := consistent.nested
  rw [frames] at nested
  obtain ⟨-, stack, -, -, held, outside⟩ := nested
  have since : BlobAllocator.Since frame.start [] (frame.restored s.now) := since
  refine ⟨sound, held.since since, outside.since since ?_⟩
  show s.now.checkpointWatermarks.tail = _
  rw [stack]
  rfl

theorem Consistent.step (consistent : Consistent s) (restorable : s.Restorable call)
    (stepped : s.step call = some next) : Consistent next := by
  cases call with
  | allocate create data => exact consistent.allocate create data stepped
  | checkpoint => exact consistent.checkpoint stepped
  | commit => exact consistent.commit stepped
  | rollback =>
    cases frames : s.frames with
    | nil => simp [BlobRun.step, frames] at stepped
    | cons frame outer =>
      obtain rfl := Option.some.inj ((consistent.step_rollback frames).symm.trans stepped)
      refine consistent.rollback frames (restorable rfl frame ?_)
      rw [frames]
      rfl

theorem Consistent.restores_iff (consistent : Consistent s) (stepped : s.step call = some next) :
    s.Restores call ↔ s.Restorable call := by
  constructor
  · rintro restores rfl frame innermost
    obtain ⟨outer, frames⟩ := List.head?_eq_some_iff.mp innermost
    have step := consistent.step_rollback frames
    exact consistent.restorable frames ((restores _ step).2 rfl frame innermost)
  · intro restorable after step
    refine ⟨(consistent.step restorable step).intact, ?_⟩
    rintro rfl frame innermost
    obtain ⟨outer, frames⟩ := List.head?_eq_some_iff.mp innermost
    obtain rfl := Option.some.inj ((consistent.step_rollback frames).symm.trans step)
    exact (consistent.restored frames (restorable rfl frame innermost)).2.2

/-- Blob rollback is exact in the runs whose rollbacks are ones that the watermark determines. -/
theorem restores_iff_restorable (calls : List BlobCall) :
    StepsMeet step Restores initial calls ↔ StepsMeet step Restorable initial calls :=
  stepsMeet_iff (fun _ _ _ consistent stepped => consistent.restores_iff stepped)
    (fun _ _ _ consistent restorable stepped => consistent.step restorable stepped) calls initial
    consistent_initial

def zeroed (_ : Nat) : Option (Nat → UInt8) :=
  some fun _ => 0

open BlobAllocator (slabs_setSlab_same slabs_setSlab_other)

theorem not_restores (front : List BlobCall) (ran : runFrom step initial front = some s)
    (frames : s.frames = frame :: outer) (accepted : s.now.accepts frame.token = true)
    (misses : ¬ ∀ i, (frame.restored s.now).fillLevel i = frame.start.fillLevel i) :
    ¬ StepsMeet step Restores initial (front ++ [.rollback]) := by
  intro meets
  have stepped : s.step .rollback = some ⟨frame.restored s.now, frame.blobs, outer⟩ := by
    simp only [BlobRun.step, frames, BlobFrame.rollback_eq accepted]
  obtain ⟨restores, -⟩ := StepsMeet.drop front initial meets ran _ stepped
  exact misses ((restores _ stepped).2 rfl frame (by rw [frames]; rfl))

variable {data : List UInt8}

theorem step_allocated {create : Nat → Option (Nat → UInt8)} {id : Option SlabId}
    {now : BlobAllocator} {blobs : List Blob} (result : s.now.allocate create data = (id, now))
    (recorded : record s.blobs data id = blobs) :
    s.step (.allocate create data) = some { s with now := now, blobs := blobs } := by
  rw [step_allocate, result, ← recorded]

theorem step_checkpoint : s.step .checkpoint = some { s with
    now := s.now.checkpoint.2
    frames := ⟨s.now.checkpoint.1, s.now, s.blobs⟩ :: s.frames } := rfl

def holding (i : Nat) (data : List UInt8) : BlobSlab :=
  (BlobSlab.created i fun _ => 0).store data

theorem fails_empty (bytes : 0 < data.length) (small : data.length ≤ 65535) :
    ¬ StepsMeet step Restores initial [.checkpoint, .allocate zeroed data, .rollback] := by
  have stored : initial.now.checkpoint.2.allocate zeroed data =
      (some ⟨0, 1⟩, initial.now.checkpoint.2.setSlab 0 (holding 0 data)) :=
    BlobAllocator.allocate_first rfl rfl bytes small
  have ran : runFrom step initial [.checkpoint, .allocate zeroed data] = some
      ⟨initial.now.checkpoint.2.setSlab 0 (holding 0 data), [(⟨0, 1⟩, data)],
        [⟨initial.now.checkpoint.1, initial.now, []⟩]⟩ := by
    simp only [runFrom, step_allocate, step_checkpoint, Option.bind_some, stored]
    rfl
  have mark : initial.now.currentWatermark = ⟨0, 0⟩ := by
    rcases BlobAllocator.currentWatermark_cases consistent_initial.sound with
      ⟨-, null⟩ | ⟨_, _, found, -⟩
    · exact null
    · cases found
  refine not_restores _ ran rfl rfl fun same => ?_
  have gone := BlobFrame.Rewound.still mark rfl same
  rw [slabs_setSlab_same] at gone
  cases gone

theorem fails_full (full : data.length = 65535) :
    ¬ StepsMeet step Restores initial [.allocate zeroed data, .checkpoint, .rollback] := by
  have stored : initial.now.allocate zeroed data =
      (some ⟨0, 1⟩, initial.now.setSlab 0 (holding 0 data)) :=
    BlobAllocator.allocate_first rfl rfl (by omega) (by omega)
  let s := initial.now.setSlab 0 (holding 0 data)
  have count : (holding 0 data).count = 65536 := by
    show 1 + data.length = 65536
    omega
  have ran : runFrom step initial [.allocate zeroed data, .checkpoint] = some
      ⟨s.checkpoint.2, [(⟨0, 1⟩, data)], [⟨s.checkpoint.1, s, [(⟨0, 1⟩, data)]⟩]⟩ := by
    simp only [runFrom, step_allocate, step_checkpoint, Option.bind_some, stored]
    rfl
  have mark : s.currentWatermark = ⟨0, 0⟩ := by
    have alone : ∀ j, 0 < j → s.slabs j = none := fun j behind =>
      slabs_setSlab_other (by omega) _
    rw [BlobAllocator.currentWatermark_last (by unfold numSlabs; omega) (slabs_setSlab_same 0 _)
      alone, count]
  refine not_restores _ ran rfl rfl fun same => ?_
  have cut := @BlobFrame.restored_at ⟨s.checkpoint.1, s, [(⟨0, 1⟩, data)]⟩ s.checkpoint.2
  have watermark : s.checkpoint.1.watermark = ⟨0, 0⟩ := mark
  simp only [watermark] at cut
  have kept := BlobFrame.Rewound.level same (slabs_setSlab_same 0 _) cut
  rw [count] at kept
  cases kept

theorem fails_earlier {more last : List UInt8} (room : data.length + last.length ≤ 65535)
    (bytes : 0 < data.length) (adds : 0 < last.length) (full : 65535 < data.length + more.length)
    (small : more.length < 65536) :
    ¬ StepsMeet step Restores initial [.allocate zeroed data, .allocate zeroed more, .checkpoint,
      .allocate zeroed last, .rollback] := by
  have stored : initial.now.allocate zeroed data =
      (some ⟨0, 1⟩, initial.now.setSlab 0 (holding 0 data)) :=
    BlobAllocator.allocate_first rfl rfl (by omega) (by omega)
  have count : (holding 0 data).count = 1 + data.length := rfl
  let s := initial.now.setSlab 0 (holding 0 data)
  have stored₂ : s.allocate zeroed more = (some ⟨1, 0⟩, s.setSlab 1 (holding 1 more)) :=
    BlobAllocator.allocate_second (slabs_setSlab_same 0 _) (by omega) rfl rfl (by omega)
  let t := s.setSlab 1 (holding 1 more)
  have there : t.slabs 0 = some (holding 0 data) := rfl
  have stored₃ : t.checkpoint.2.allocate zeroed last =
      (some ⟨0, (1 + data.length) % 65536⟩, t.checkpoint.2.setSlab 0 ((holding 0 data).store last)) :=
    @BlobAllocator.allocate_room t.checkpoint.2 _ _ _ there adds (by omega)
  let u := t.checkpoint.2.setSlab 0 ((holding 0 data).store last)
  let blobs : List Blob := [(⟨1, 0⟩, more), (⟨0, 1⟩, data)]
  have first : initial.step (.allocate zeroed data) = some ⟨s, [(⟨0, 1⟩, data)], []⟩ :=
    @step_allocated initial _ _ _ _ _ stored rfl
  have second : BlobRun.step ⟨s, [(⟨0, 1⟩, data)], []⟩ (.allocate zeroed more) =
      some ⟨t, blobs, []⟩ := @step_allocated ⟨s, [(⟨0, 1⟩, data)], []⟩ _ _ _ _ _ stored₂ rfl
  have third : BlobRun.step ⟨t, blobs, []⟩ .checkpoint =
      some ⟨t.checkpoint.2, blobs, [⟨t.checkpoint.1, t, blobs⟩]⟩ := step_checkpoint
  have fourth : BlobRun.step ⟨t.checkpoint.2, blobs, [⟨t.checkpoint.1, t, blobs⟩]⟩
      (.allocate zeroed last) = some ⟨u, record blobs last (some ⟨0, (1 + data.length) % 65536⟩),
        [⟨t.checkpoint.1, t, blobs⟩]⟩ :=
    @step_allocated ⟨t.checkpoint.2, blobs, _⟩ _ _ _ _ _ stored₃ rfl
  have ran : runFrom step initial [.allocate zeroed data, .allocate zeroed more, .checkpoint,
      .allocate zeroed last] = some ⟨u, record blobs last (some ⟨0, (1 + data.length) % 65536⟩),
        [⟨t.checkpoint.1, t, blobs⟩]⟩ := by
    rw [runFrom_cons first, runFrom_cons second, runFrom_cons third, runFrom_cons fourth]
    rfl
  have mark : t.currentWatermark.first = 1 := by
    rw [BlobAllocator.currentWatermark_last (by unfold numSlabs; omega) (slabs_setSlab_same 1 _)]
    intro j behind
    rw [slabs_setSlab_other (by omega), slabs_setSlab_other (by omega)]
    rfl
  refine not_restores _ ran rfl rfl fun same => ?_
  have before : 0 < t.checkpoint.1.watermark.first := by
    show 0 < t.currentWatermark.first
    omega
  have left := (@BlobFrame.restored_before ⟨t.checkpoint.1, t, blobs⟩ u 0 before).trans
    (slabs_setSlab_same 0 _)
  have kept : (holding 0 data).count + last.length = (holding 0 data).count :=
    BlobFrame.Rewound.level same there left
  omega

/--
Three rollbacks that miss: to an allocator without slabs, to one whose slab is full, and across
an allocation that went into a slab before the last one.
-/
theorem restores_fails :
    ¬ StepsMeet step Restores initial [.checkpoint, .allocate zeroed [7], .rollback] ∧
    ¬ StepsMeet step Restores initial
      [.allocate zeroed (List.replicate 65535 7), .checkpoint, .rollback] ∧
    ¬ StepsMeet step Restores initial
      [.allocate zeroed (List.replicate 65530 7), .allocate zeroed (List.replicate 10 7),
        .checkpoint, .allocate zeroed [7], .rollback] := by
  refine ⟨fails_empty (by decide) (by decide), fails_full List.length_replicate, 
    fails_earlier ?_ ?_ ?_ ?_ ?_⟩
  all_goals simp only [List.length_replicate, List.length_singleton]
  all_goals omega
end BlobRun

end AgentC
