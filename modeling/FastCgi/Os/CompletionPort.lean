import FastCgi.Os.Win32

/-!
Completion callbacks under Windows.

`OS_DoIo` calls back if the stamp that the request was given is that of its
slot. But no function ever writes the stamp of a slot (`Win32.Stamped`), so
every packet that is dequeued is called back (`called_of_dequeued`). What is
left of the promise are the runs in which a slot is only closed when no
request of it is outstanding (`stale_callbacks_iff`).
-/

namespace FastCgi.OsWin32

open Machine OsUnix

/-! ### Stale callbacks -/

/-- According to the record, the slot of the request has been closed since it was started. -/
def ClosedSince (log : List Win32Event) (o : Started) : Prop :=
  .closed o.fd ∈ log.drop o.startedAt

/-- No request has been called back after its slot had been closed. -/
def NoStaleCallback (log : List Win32Event) : Prop :=
  ∀ pre o post, log = pre ++ .dequeued o true :: post → ¬ClosedSince pre o

theorem closedSince_concat {log : List Win32Event} {o : Started} (h : o.startedAt ≤ log.length)
    (e : Win32Event) : ClosedSince (log ++ [e]) o ↔ ClosedSince log o ∨ e = .closed o.fd := by
  rw [ClosedSince, List.drop_append_of_le_length h, List.mem_append, List.mem_singleton, eq_comm,
    ClosedSince]

theorem noStaleCallback_concat {log : List Win32Event} {e : Win32Event} :
    NoStaleCallback (log ++ [e]) ↔
      NoStaleCallback log ∧ ∀ o, e = .dequeued o true → ¬ClosedSince log o := by
  constructor
  · intro h
    refine ⟨fun pre o post hlog => ?_, fun o he => h log o [] (by rw [he])⟩
    exact h pre o (post ++ [e]) (by rw [hlog]; simp)
  · rintro ⟨hlog, he⟩ pre o post heq
    rcases List.eq_nil_or_concat post with rfl | ⟨post, e', rfl⟩
    · obtain ⟨rfl, hlast⟩ := List.append_inj' heq rfl
      exact he o (List.cons.inj hlast).1
    · have heq' : log ++ [e] = (pre ++ .dequeued o true :: post) ++ [e'] := by
        rw [heq]
        simp
      exact hlog pre o post (List.append_inj' heq' rfl).1

/-- A step does not close the slot of a request that is outstanding. -/
def QuietClose (w : Win32) (i : Win32Input) : Prop :=
  ∀ fd ∈ i.closes, ∀ o ∈ w.outstanding, (o.fd : ℤ) ≠ fd

instance (w : Win32) (i : Win32Input) : Decidable (QuietClose w i) :=
  inferInstanceAs (Decidable (∀ fd ∈ i.closes, ∀ o ∈ w.outstanding, (o.fd : ℤ) ≠ fd))

/-- The steps by which requests come to their callbacks. -/
def Win32Input.Dispatches : Win32Input → Prop
  | .complete _ _ | .doIo _ => True
  | _ => False

namespace Win32

variable {w w' : Win32}

/-- The requests that are outstanding have the stamps of their slots, and as long as it has
not been closed such a slot holds a descriptor. -/
structure Stamped (w : Win32) : Prop where
  inst_eq : ∀ o ∈ w.outstanding, o.ov.inst = (w.fdTable o.fd).inst
  startedAt_le : ∀ o ∈ w.outstanding, o.startedAt ≤ w.log.length
  fd_lt : ∀ o ∈ w.outstanding, (o.fd : ℤ) < win32OpenMax
  used : ∀ o ∈ w.outstanding, ¬ClosedSince w.log o → w.Used o.fd

/-- There has been no stale callback, and none is to come. -/
structure Quiet (w : Win32) : Prop where
  past : NoStaleCallback w.log
  ahead : ∀ o ∈ w.outstanding, ¬ClosedSince w.log o

theorem stamped_static : static.Stamped where
  inst_eq _ ho := (List.not_mem_nil ho).elim
  startedAt_le _ ho := (List.not_mem_nil ho).elim
  fd_lt _ ho := (List.not_mem_nil ho).elim
  used _ ho := (List.not_mem_nil ho).elim

theorem quiet_static : static.Quiet where
  past pre o post h := by simp [static] at h
  ahead _ ho := (List.not_mem_nil ho).elim

/-- The requests of the new state were outstanding before, and one event is noted. -/
theorem Stamped.note (h : w.Stamped) {e : Win32Event} (hlog : w'.log = w.log ++ [e])
    (hout : ∀ x ∈ w'.outstanding, x ∈ w.outstanding)
    (hinst : ∀ fd, (w'.fdTable fd).inst = (w.fdTable fd).inst)
    (hused : ∀ fd, e ≠ .closed fd → w.Used fd → w'.Used fd) : w'.Stamped where
  inst_eq x hx := (h.inst_eq x (hout x hx)).trans (hinst x.fd).symm
  startedAt_le x hx := by
    rw [hlog, List.length_append]
    exact (h.startedAt_le x (hout x hx)).trans (Nat.le_add_right _ _)
  fd_lt x hx := h.fd_lt x (hout x hx)
  used x hx hopen := by
    rw [hlog, closedSince_concat (h.startedAt_le x (hout x hx)), not_or] at hopen
    exact hused x.fd hopen.2 (h.used x (hout x hx) hopen.1)

/-- **No step writes a stamp.** -/
theorem Stamped.step (h : w.Stamped) {i : Win32Input} (hstep : Win32Steps w i w') :
    w'.Stamped := by
  cases effect_step hstep with
  | kept hslots hlog hout _ =>
      refine ⟨fun x hx => ?_, fun x hx => ?_, fun x hx => h.fd_lt x ((hout x).mp hx),
        fun x hx hopen => ?_⟩
      · exact (h.inst_eq x ((hout x).mp hx)).trans (hslots.inst_eq x.fd).symm
      · rw [hlog]
        exact h.startedAt_le x ((hout x).mp hx)
      · rw [hlog] at hopen
        exact hslots.used x.fd (h.used x ((hout x).mp hx) hopen)
  | started o hslots _ hat hinst hused hfd hlog hout =>
      have hlen : w.log.length ≤ w'.log.length := by
        rw [hlog, List.length_append]
        exact Nat.le_add_right _ _
      refine ⟨fun x hx => ?_, fun x hx => ?_, fun x hx => ?_, fun x hx hopen => ?_⟩
      · rw [hslots.inst_eq]
        rcases (hout x).mp hx with hx | rfl
        · exact h.inst_eq x hx
        · exact hinst
      · rcases (hout x).mp hx with hx | rfl
        · exact (h.startedAt_le x hx).trans hlen
        · exact hat.le.trans hlen
      · rcases (hout x).mp hx with hx | rfl
        · exact h.fd_lt x hx
        · exact hfd
      · refine hslots.used x.fd ?_
        rcases (hout x).mp hx with hx | rfl
        · rw [hlog, closedSince_concat (h.startedAt_le x hx), not_or] at hopen
          exact h.used x hx hopen.1
        · exact hused
  | closed n _ _ hinst hothers hlog hout =>
      exact h.note hlog (fun x hx => (hout x).mp hx) hinst
        fun fd hne hfd => hothers fd (fun heq => hne (heq ▸ rfl)) hfd
  | dequeued o hslots _ _ hlog hout =>
      exact h.note hlog hout hslots.inst_eq fun fd _ hfd => hslots.used fd hfd

/-- A step leaves it quiet exactly if it closes no slot of an outstanding request. -/
theorem Quiet.step_iff (hstamped : w.Stamped) (h : w.Quiet) {i : Win32Input}
    (hstep : Win32Steps w i w') : w'.Quiet ↔ QuietClose w i := by
  cases effect_step hstep with
  | kept hslots hlog hout hidle =>
      have hquiet : w'.Quiet := by
        refine ⟨hlog ▸ h.past, fun x hx => ?_⟩
        rw [hlog]
        exact h.ahead x ((hout x).mp hx)
      refine iff_of_true hquiet fun fd hfd o ho heq => hidle fd hfd ?_
      -- the slot of an outstanding request holds a descriptor
      have hused := hstamped.used o ho (h.ahead o ho)
      rwa [← heq]
  | started o hslots hi hat hinst hused hfd hlog hout =>
      refine iff_of_true ⟨?_, fun x hx => ?_⟩ fun fd hclose => by rw [hi] at hclose; cases hclose
      · rw [hlog]
        exact noStaleCallback_concat.mpr ⟨h.past, nofun⟩
      · rcases (hout x).mp hx with hx | rfl
        · rw [hlog, closedSince_concat (hstamped.startedAt_le x hx)]
          simpa using h.ahead x hx
        · rw [hlog, closedSince_concat hat.le, ClosedSince, hat]
          simp
  | closed n hi hused hinst hothers hlog hout =>
      have hpast : NoStaleCallback w'.log := by
        rw [hlog]
        exact noStaleCallback_concat.mpr ⟨h.past, nofun⟩
      constructor
      · intro hquiet fd hclose o ho heq
        obtain rfl := Option.some.inj (hi.symm.trans hclose)
        have hopen := hquiet.ahead o ((hout o).mpr ho)
        rw [hlog, closedSince_concat (hstamped.startedAt_le o ho), not_or] at hopen
        exact hopen.2 (by rw [Int.ofNat_inj.mp heq])
      · intro hclose
        refine ⟨hpast, fun x hx => ?_⟩
        have hmem := (hout x).mp hx
        rw [hlog, closedSince_concat (hstamped.startedAt_le x hmem)]
        rintro (hold | hnew)
        · exact h.ahead x hmem hold
        · exact hclose n hi x hmem (by rw [← (Win32Event.closed.inj hnew)])
  | dequeued o hslots hi hmem hlog hout =>
      refine iff_of_true ⟨?_, fun x hx => ?_⟩ fun fd hclose => by rw [hi] at hclose; cases hclose
      · rw [hlog]
        refine noStaleCallback_concat.mpr ⟨h.past, fun o' heq => ?_⟩
        obtain ⟨rfl, -⟩ := Win32Event.dequeued.inj heq
        exact h.ahead o hmem
      · rw [hlog, closedSince_concat (hstamped.startedAt_le x (hout x hx))]
        simpa using h.ahead x (hout x hx)

/-- A packet at the port is dequeued, and the request is called back. -/
theorem Stamped.dequeue (h : w.Stamped) {k : ℕ} {p : Packet} (hk : w.hIoCompPort[k]? = some p) :
    ∃ t, Win32Steps w (.doIo k) t ∧ t.log = w.log ++ [.dequeued p.request true] := by
  have hmem : p.request ∈ w.outstanding :=
    List.mem_append_right _ (List.mem_map_of_mem (List.mem_of_getElem? hk))
  have hslot : slot p.request.fd = some p.request.fd :=
    slot_eq_some.mpr ⟨rfl, h.fd_lt _ hmem⟩
  refine ⟨{ w with
    hIoCompPort := w.hIoCompPort.eraseIdx k
    log := w.log ++ [.dequeued p.request true] }, ?_, rfl⟩
  rw [Win32Steps, Win32.step, osDoIo, hk, Option.bind_some, hslot, Option.map_some]
  simp only [h.inst_eq _ hmem, decide_true]

/-- A request whose slot has been closed can come to its callback all the same. -/
theorem Stamped.stale (h : w.Stamped) {o : Started} (ho : o ∈ w.outstanding)
    (hclosed : ClosedSince w.log o) :
    ∃ more t, Runs (Guarded (fun _ i => i.Dispatches) Win32Steps) w more t ∧
      ¬NoStaleCallback t.log := by
  rcases List.mem_append.mp ho with hflight | hport
  · obtain ⟨k, hk⟩ := List.mem_iff_getElem?.mp hflight
    set u : Win32 :=
      { w with inFlight := w.inFlight.eraseIdx k, hIoCompPort := w.hIoCompPort ++ [⟨0, o⟩] }
    have hcomplete : Win32Steps w (.complete k 0) u := by
      rw [Win32Steps, Win32.step, complete, hk]
      rfl
    have hlast : u.hIoCompPort[w.hIoCompPort.length]? = some ⟨0, o⟩ := by simp [u]
    obtain ⟨t, hstep, hlog⟩ := (h.step hcomplete).dequeue hlast
    refine ⟨[.complete k 0, .doIo w.hIoCompPort.length], t,
      .cons ⟨trivial, hcomplete⟩ (.single ⟨trivial, hstep⟩), ?_⟩
    rw [hlog, noStaleCallback_concat]
    exact fun hno => hno.2 o rfl hclosed
  · obtain ⟨p, hp, rfl⟩ := List.mem_map.mp hport
    obtain ⟨k, hk⟩ := List.mem_iff_getElem?.mp hp
    obtain ⟨t, hstep, hlog⟩ := h.dequeue hk
    refine ⟨[.doIo k], t, .single ⟨trivial, hstep⟩, ?_⟩
    rw [hlog, noStaleCallback_concat]
    exact fun hno => hno.2 p.request rfl hclosed

/-- It is quiet exactly if no stale callback comes of completing and dequeuing requests. -/
theorem quiet_iff (h : w.Stamped) :
    (∀ more t, Runs (Guarded (fun _ i => i.Dispatches) Win32Steps) w more t →
      NoStaleCallback t.log) ↔ w.Quiet := by
  constructor
  · intro hall
    refine ⟨hall [] w .nil, fun o ho hclosed => ?_⟩
    obtain ⟨more, t, hrun, hstale⟩ := h.stale ho hclosed
    exact hstale (hall more t hrun)
  · intro hquiet more t hrun
    have hkept : t.Stamped ∧ t.Quiet := by
      apply hrun.invariant (I := fun s => s.Stamped ∧ s.Quiet)
      · rintro s i u ⟨hstamped, hquiet⟩ ⟨hdispatch, hstep⟩
        refine ⟨hstamped.step hstep, (hquiet.step_iff hstamped hstep).mpr fun fd hfd => ?_⟩
        cases i <;> simp [Win32Input.closes, Win32Input.Dispatches] at hfd hdispatch
      · exact ⟨h, hquiet⟩
    exact hkept.2.past

end Win32

/-! ### Runs -/

open Win32

variable {is : List Win32Input} {s : Win32}

theorem stamped_of_runs (h : Runs Win32Steps static is s) : s.Stamped :=
  h.invariant (fun _ _ _ hs hstep => hs.step hstep) stamped_static

/-- **No packet is dropped.** -/
theorem called_of_dequeued (h : Runs Win32Steps static is s) {o : Started} {called : Bool}
    (hmem : .dequeued o called ∈ s.log) : called = true := by
  have hall : s.Stamped ∧ ∀ o called, .dequeued o called ∈ s.log → called = true := by
    apply h.invariant (I := fun s => s.Stamped ∧ ∀ o called, .dequeued o called ∈ s.log →
      called = true)
    · rintro s i t ⟨hstamped, hcalled⟩ hstep
      refine ⟨hstamped.step hstep, fun o called hmem => ?_⟩
      cases effect_step hstep with
      | kept _ hlog => exact hcalled o called (hlog ▸ hmem)
      | started _ _ _ _ _ _ _ hlog =>
          rw [hlog, List.mem_append, List.mem_singleton] at hmem
          exact hcalled o called (hmem.resolve_right nofun)
      | closed _ _ _ _ _ hlog =>
          rw [hlog, List.mem_append, List.mem_singleton] at hmem
          exact hcalled o called (hmem.resolve_right nofun)
      | dequeued o' _ _ hout hlog =>
          rw [hlog, List.mem_append, List.mem_singleton] at hmem
          rcases hmem with hmem | heq
          · exact hcalled o called hmem
          · obtain ⟨-, rfl⟩ := Win32Event.dequeued.inj heq
            exact decide_eq_true (hstamped.inst_eq o' hout)
    · exact ⟨stamped_static, fun _ _ hmem => (List.not_mem_nil hmem).elim⟩
  exact hall.2 o called hmem

/-- **Stale callbacks over whole runs.** Whatever the kernel completes and `OS_DoIo` dequeues
after any part of a run, no request is called back after its slot has been closed, exactly if
the run closes no slot of a request that is outstanding. -/
theorem stale_callbacks_iff (h : Runs Win32Steps static is s) :
    (∀ js u, js <+: is → Runs Win32Steps static js u →
      ∀ more t, Runs (Guarded (fun _ i => i.Dispatches) Win32Steps) u more t →
        NoStaleCallback t.log) ↔
      Runs (Guarded QuietClose Win32Steps) static is s := by
  have hquiet : (∀ js u, js <+: is → Runs Win32Steps static js u → u.Quiet) ↔
      Runs (Guarded QuietClose Win32Steps) static is s := by
    apply Runs.guarded_iff (I := Win32.Stamped) _ _ _ stamped_static quiet_static h
    · exact fun _ _ _ _ hstep hstep' => Option.some.inj (hstep.symm.trans hstep')
    · exact fun _ _ _ hs hstep => hs.step hstep
    · exact fun _ _ _ hs hquiet hstep => hquiet.step_iff hs hstep
  rw [← hquiet]
  constructor
  · intro hall js u hjs hu
    exact (quiet_iff (stamped_of_runs hu)).mp (hall js u hjs hu)
  · intro hall js u hjs hu
    exact (quiet_iff (stamped_of_runs hu)).mpr (hall js u hjs hu)

/-- What the two runs below read. -/
def someRead : AioArgs := { offset := 0, buf := 0, len := 16, procPtr := 1, clientData := 7 }

/-- A pipe is closed when its request has been called back, and its slot is used again. -/
theorem stale_callbacks_iff_reused :
    ∃ s, Runs Win32Steps static
        [.newDescriptor .pipeAsync 300 (-1), .asyncRead 1 someRead (some errorIoPending),
          .complete 0 16, .doIo 0, .close 1, .newDescriptor .pipeAsync 304 (-1),
          .asyncRead 1 someRead none] s ∧
      ((∀ js u,
        js <+: [.newDescriptor .pipeAsync 300 (-1), .asyncRead 1 someRead (some errorIoPending),
          .complete 0 16, .doIo 0, .close 1, .newDescriptor .pipeAsync 304 (-1),
          .asyncRead 1 someRead none] →
        Runs Win32Steps static js u →
        ∀ more t, Runs (Guarded (fun _ i => i.Dispatches) Win32Steps) u more t →
          NoStaleCallback t.log) ↔
        Runs (Guarded QuietClose Win32Steps) static
          [.newDescriptor .pipeAsync 300 (-1), .asyncRead 1 someRead (some errorIoPending),
            .complete 0 16, .doIo 0, .close 1, .newDescriptor .pipeAsync 304 (-1),
            .asyncRead 1 someRead none] s) := by
  have hrun : (exec Win32.step static
      [.newDescriptor .pipeAsync 300 (-1), .asyncRead 1 someRead (some errorIoPending),
        .complete 0 16, .doIo 0, .close 1, .newDescriptor .pipeAsync 304 (-1),
        .asyncRead 1 someRead none]).isSome = true := by
    decide +kernel
  obtain ⟨s, hs⟩ := Option.isSome_iff_exists.mp hrun
  have hruns : Runs Win32Steps static _ s := .of_exec (fun _ _ _ hstep => hstep) hs
  exact ⟨s, hruns, stale_callbacks_iff hruns⟩

/-- **A stale callback.** A pipe is closed and its slot is used again while a request is
outstanding; `OS_DoIo` calls the request back. -/
theorem stale_callback :
    ∃ s, Runs Win32Steps static
        [.newDescriptor .pipeAsync 300 (-1), .asyncRead 1 someRead (some errorIoPending),
          .close 1, .newDescriptor .pipeAsync 304 (-1), .complete 0 0, .doIo 0] s ∧
      ¬NoStaleCallback s.log := by
  let o : Started :=
    { fd := 1, startedAt := 0
      ov := { offset := 0, offsetHigh := 0, inst := 0, procPtr := 1, clientData := 7,
              clientData1 := 0 } }
  have hrun : (exec Win32.step static
      [.newDescriptor .pipeAsync 300 (-1), .asyncRead 1 someRead (some errorIoPending),
        .close 1, .newDescriptor .pipeAsync 304 (-1), .complete 0 0, .doIo 0]).map Win32.log =
      some [.started o, .closed 1, .dequeued o true] := by
    decide +kernel
  obtain ⟨s, hs, hlog⟩ := Option.map_eq_some_iff.mp hrun
  refine ⟨s, Runs.of_exec (fun _ _ _ hstep => hstep) hs, fun hno => ?_⟩
  exact hno [.started o, .closed 1] o [] hlog (by simp [ClosedSince, o])

end FastCgi.OsWin32
