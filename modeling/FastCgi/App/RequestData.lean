import FastCgi.App.ReadInvariant
import FastCgi.App.WriteInvariant

/-!
What the calls on a stream leave of the request data.

The role, the id and the flags of a request are set by the record that
begins it and by nothing after it; the exit status is set by nothing that
a stream does; the number of writers by `FCGX_FClose` only. All of this
holds in whatever state the stream is, so the proofs follow the text of
the functions and know nothing of their purpose.
-/

namespace FastCgi

open ByteMem BoundedLoop

/-- What a call on a stream leaves of the request data. -/
structure ReqData.Kept (q q' : ReqData) : Prop where
  appStatus : q'.appStatus = q.appStatus
  begun : q.isBeginProcessed = true → ∃ n, q' = { q with nWriters := n }

theorem ReqData.Kept.of_eq {q q' : ReqData} (h : q' = q) : q.Kept q' := by
  subst h
  exact ⟨rfl, fun _ => ⟨_, rfl⟩⟩

theorem ReqData.Kept.refl (q : ReqData) : q.Kept q := .of_eq rfl

theorem ReqData.Kept.trans {q q' q'' : ReqData} (h : q.Kept q') (h' : q'.Kept q'') :
    q.Kept q'' := by
  refine ⟨h'.appStatus.trans h.appStatus, fun hbegun => ?_⟩
  obtain ⟨n, rfl⟩ := h.begun hbegun
  obtain ⟨n', rfl⟩ := h'.begun hbegun
  exact ⟨n', rfl⟩

/-! ### Reading -/

/-- What reading leaves of a stream and of the request data. An error that is set stays
set. -/
structure Chan.Kept (c c' : Chan) : Prop where
  req : c.req.Kept c'.req
  type : c'.stream.type = c.stream.type
  errno : c.stream.fcgiErrno ≠ 0 → c'.stream.fcgiErrno ≠ 0

theorem Chan.Kept.of_eq {c c' : Chan} (hreq : c'.req = c.req)
    (htype : c'.stream.type = c.stream.type) (herrno : c'.stream.fcgiErrno = c.stream.fcgiErrno) :
    c.Kept c' :=
  ⟨.of_eq hreq, htype, by rw [herrno]; exact id⟩

theorem Chan.Kept.refl (c : Chan) : c.Kept c := .of_eq rfl rfl rfl

theorem Chan.Kept.trans {c c' c'' : Chan} (h : c.Kept c') (h' : c'.Kept c'') : c.Kept c'' :=
  ⟨h.req.trans h'.req, h'.type.trans h.type, fun herrno => h'.errno (h.errno herrno)⟩

theorem Chan.Kept.setError (c : Chan) (e : ℤ) : c.Kept (c.setError e) where
  req := .refl _
  type := rfl
  errno h := by
    show (if c.stream.fcgiErrno = 0 then e else c.stream.fcgiErrno) ≠ 0
    rwa [if_neg h]

theorem Chan.Kept.os (c : Chan) (os : Os) : c.Kept { c with os := os } := .of_eq rfl rfl rfl

/-- A procedure that keeps what reading keeps. -/
def Keeps (fill : Chan → Option Chan) : Prop := ∀ c c', fill c = some c' → c.Kept c'

/-- A procedure that keeps the request data. -/
def KeepsData (fill : Chan → Option Chan) : Prop :=
  ∀ c c', fill c = some c' → c.req.Kept c'.req

/-- The records with which reading answers what is not for the stream. -/
inductive IsReply : List UInt8 → Prop
  | getValues (stack : ℕ → UInt8) (query : List (List UInt8)) :
      IsReply (getValuesReply stack query)
  | unknownType (type : ℕ) : IsReply (unknownTypeReply type)
  | cantMpx (requestId : ℕ) : IsReply (cantMpxReply requestId)

/-- A relation between a channel and what reading makes of it: the steps of reading, and of the
descriptor only that it is read and that replies are written to it. The type of the stream and
an error stay, a reader is a reader, and a request is begun once. -/
structure ReadFrame (K : Chan → Chan → Prop) : Prop where
  refl : ∀ c, K c c
  trans : ∀ {c c' c''}, K c c' → K c' c'' → K c c''
  stream : ∀ (c : Chan) (s : Stream), s.type = c.stream.type → s.isReader = c.stream.isReader →
    (c.stream.fcgiErrno ≠ 0 → s.fcgiErrno ≠ 0) → K c { c with stream := s }
  read : ∀ (c : Chan) (len : ℕ), K c { c with os := (osRead c.os len).2 }
  reply : ∀ (c : Chan) {reply : List UInt8}, IsReply reply →
    K c { c with os := (writeItAll c.os reply).2 }
  setRequestId : ∀ (c : Chan) (id : ℕ), c.req.isBeginProcessed = false → K c (c.setRequestId id)
  begins : ∀ (c d : Chan) (body : List UInt8), c.req.isBeginProcessed = false → K c d →
    K c { d with req := d.req.begin body }

namespace ReadFrame

variable {K : Chan → Chan → Prop} {fill : Chan → Option Chan} {k c c' : Chan}

theorem setError (hK : ReadFrame K) (e : ℤ) : K c (c.setError e) := by
  refine hK.stream c (FastCgi.setError c.stream e) rfl rfl fun h => ?_
  show (if c.stream.fcgiErrno = 0 then e else c.stream.fcgiErrno) ≠ 0
  rwa [if_neg h]

/-- What a procedure keeps, reading with it keeps. -/
theorem readInvariant (hK : ReadFrame K) (hfill : ∀ c c', fill c = some c' → K c c') (k : Chan) :
    ReadInvariant fill (K k) where
  takeBytes m c hc := hK.trans hc (hK.stream c (FastCgi.takeBytes m c).2.stream rfl rfl id)
  setError c hc := hK.trans hc (hK.setError _)
  fill c c' _ hc h := by
    have hkept := hK.trans hc (hfill c c' h)
    split
    · exact hkept
    · exact hK.trans hkept (hK.stream c' (markUnget c').stream rfl rfl id)

theorem sendReply (hK : ReadFrame K) {reply : List UInt8} (hreply : IsReply reply)
    {ok status : Status} (h : sendReply reply ok c = (status, c')) : K c c' := by
  have hwritten := hK.reply c hreply
  rw [FastCgi.sendReply] at h
  split at h
  · next os hwrite =>
      rw [hwrite] at hwritten
      cases h
      exact hK.trans hwritten (hK.setError _)
  · next os hwrite =>
      rw [hwrite] at hwritten
      cases h
      exact hwritten

theorem processHeader (hK : ReadFrame K) (hfill : ∀ c c', fill c = some c' → K c c')
    {header : Header} {status : Status} (h : processHeader fill header c = some (status, c')) :
    K c c' := by
  have hstart : K c (c.startRecord header) := hK.stream c (c.startRecord header).stream rfl rfl id
  cases interprets_processHeader h with
  | otherVersion => exact hK.refl c
  | malformed => exact hstart
  | multiplexed _ _ hsend => exact hK.trans hstart (hK.sendReply (.cantMpx _) hsend)
  | cutBody hawait hget =>
      have hid := hK.setRequestId (c.startRecord header) header.requestId hawait
      exact hK.trans hstart (hK.trans hid ((hK.readInvariant hfill _).getStr (hK.refl _) hget))
  | begins hawait hget =>
      have hid := hK.setRequestId (c.startRecord header) header.requestId hawait
      exact hK.begins c _ _ hawait
        (hK.trans hstart (hK.trans hid ((hK.readInvariant hfill _).getStr (hK.refl _) hget)))
  | badQuery _ hread =>
      exact hK.trans hstart
        ((hK.readInvariant hfill (c.startRecord header)).readParams (hK.refl _) hread)
  | query _ hread hsend =>
      have hkept := (hK.readInvariant hfill (c.startRecord header)).readParams (hK.refl _) hread
      exact hK.trans (hK.trans hstart hkept) (hK.sendReply (.getValues _ _) hsend)
  | unknown _ hsend => exact hK.trans hstart (hK.sendReply (.unknownType _) hsend)
  | foreign => exact hstart
  | otherType => exact hstart
  | own => exact hstart

theorem passHeader (hK : ReadFrame K) (hfill : ∀ c c', fill c = some c' → K c c')
    {hdr : List UInt8} {p : Pass (List UInt8 × Chan) Chan} (hc : K k c)
    (h : passHeader fill hdr c = some p) : p.Holds (fun x => K k x.2) (K k) := by
  simp only [FastCgi.passHeader] at h
  split at h
  · cases h
    exact hK.trans hc (hK.stream c _ rfl rfl id)
  · split at h
    · cases h
    · next status c₁ hheader =>
        have hheader := hK.processHeader hfill hheader
        have hentered : K c c₁ := by
          refine hK.trans ?_ hheader
          exact hK.stream c _ rfl rfl id
        have hkept : K k (leaveRecord c₁) :=
          hK.trans (hK.trans hc hentered) (hK.stream c₁ (leaveRecord c₁).stream rfl rfl id)
        cases status with
        | streamRecord =>
            rw [onStatus] at h
            split at h
            · cases h
              exact hK.trans hkept (hK.stream (leaveRecord c₁) _ rfl rfl id)
            · cases h
              exact hkept
        | skip =>
            cases h
            exact hK.trans hkept (hK.stream (leaveRecord c₁) _ rfl rfl id)
        | beginRecord =>
            cases h
            exact hkept
        | mgmtRecord =>
            cases h
            exact hkept
        | error e =>
            rw [onStatus] at h
            split at h
            · cases h
              exact hK.trans hkept (hK.setError _)
            · cases h

end ReadFrame

/-- What a stage ends with: `P` where the loop is left, `I` where it goes on. -/
def Stage.Holds (I P : Chan → Prop) : Stage → Prop
  | .leave c => P c
  | .loop c | .next c => I c

/-- The rule for one pass of the loop of `FillBuffProc`, from what its stages keep. -/
theorem fillBuffProcBody_rule {fill : Chan → Option Chan} {I : List UInt8 → Chan → Prop}
    {P : Chan → Prop} {x : List UInt8 × Chan} {p : Pass (List UInt8 × Chan) Chan}
    (hrefill : ∀ c, I x.1 c → (refill c).Holds (I x.1) P)
    (hcontent : ∀ c, I x.1 c → (passContent c).Holds (I x.1) P)
    (hpadding : ∀ c, I x.1 c → (passPadding c).Holds (I x.1) P)
    (heor : ∀ c, I x.1 c → (checkEor c).Holds (I x.1) P)
    (hheader : ∀ c, I x.1 c → passHeader fill x.1 c = some p →
      p.Holds (fun y => I y.1 y.2) P)
    (hx : I x.1 x.2) (h : fillBuffProcBody fill x = some p) :
    p.Holds (fun y => I y.1 y.2) P := by
  have hstage := hrefill x.2 hx
  rw [fillBuffProcBody] at h
  generalize refill x.2 = stage at h hstage
  cases stage with
  | leave c₁ =>
      cases h
      exact hstage
  | loop c₁ =>
      cases h
      exact hstage
  | next c₁ =>
      have hstage := hcontent c₁ hstage
      simp only at h
      generalize passContent c₁ = stage at h hstage
      cases stage with
      | leave c₂ =>
          cases h
          exact hstage
      | loop c₂ =>
          cases h
          exact hstage
      | next c₂ =>
          have hstage := hpadding c₂ hstage
          simp only at h
          generalize passPadding c₂ = stage at h hstage
          cases stage with
          | leave c₃ =>
              cases h
              exact hstage
          | loop c₃ =>
              cases h
              exact hstage
          | next c₃ =>
              have hstage := heor c₃ hstage
              simp only at h
              generalize checkEor c₃ = stage at h hstage
              cases stage with
              | leave c₄ =>
                  cases h
                  exact hstage
              | loop c₄ =>
                  cases h
                  exact hstage
              | next c₄ => exact hheader c₄ hstage h

namespace ReadFrame

variable {K : Chan → Chan → Prop} {k c : Chan}

theorem refill (hK : ReadFrame K) (hc : K k c) : (refill c).Holds (K k) (K k) := by
  have hread := hK.trans hc (hK.read c c.stream.bufflen)
  rw [FastCgi.refill]
  split
  · split
    · next os hos =>
        rw [hos] at hread
        exact hK.trans hread (hK.setError _)
    · next os hos =>
        rw [hos] at hread
        split
        · exact hK.trans hread (hK.setError _)
        · exact hK.trans hread (hK.stream { c with os := os } _ rfl rfl id)
  · exact hc

theorem passContent (hK : ReadFrame K) (hc : K k c) : (passContent c).Holds (K k) (K k) := by
  simp only [FastCgi.passContent]
  split
  · split
    · exact hK.trans hc (hK.stream c _ rfl rfl id)
    · split <;> exact hK.trans hc (hK.stream c _ rfl rfl id)
  · exact hc

theorem passPadding (hK : ReadFrame K) (hc : K k c) : (passPadding c).Holds (K k) (K k) := by
  simp only [FastCgi.passPadding]
  split
  · split <;> exact hK.trans hc (hK.stream c _ rfl rfl id)
  · exact hc

theorem checkEor (hK : ReadFrame K) (hc : K k c) : (checkEor c).Holds (K k) (K k) := by
  rw [FastCgi.checkEor]
  split
  · exact hK.trans hc (hK.stream c _ rfl rfl id)
  · exact hc

theorem fillBuffProcAt (hK : ReadFrame K) (d : ℕ) :
    ∀ c c', fillBuffProcAt d c = some c' → K c c' := by
  induction d with
  | zero =>
      intro c c' h
      cases h
  | succ d ih =>
      intro c c' h
      refine run_invariant (I := fun x => K c x.2) (P := K c) (fun x p hx hp => ?_)
        (hK.refl c) h
      exact fillBuffProcBody_rule (I := fun _ => K c) (fun _ => hK.refill)
        (fun _ => hK.passContent) (fun _ => hK.passPadding) (fun _ => hK.checkEor)
        (fun _ => hK.passHeader ih) hx hp

/-- Such a relation goes through the reading of a whole request, if it goes from one stream to
the next. -/
theorem readRequest (hK : ReadFrame K) (hset : ∀ c streamType, K c (c.setReaderType streamType))
    {c' : Chan} {x : Option Params} (h : readRequest c = some (x, c')) : K c c' := by
  have hfill := hK.fillBuffProcAt 2
  rw [FastCgi.readRequest] at h
  split at h
  · cases h
  · next c₁ hfirst =>
      have hkept := hfill c c₁ hfirst
      split at h
      · cases h
        exact hkept
      · split at h
        · cases h
          exact hkept
        · rw [readEnvironment] at h
          split at h
          · cases h
          · next hread =>
              cases h
              have hstart := hK.trans hkept (hset c₁ fcgiParams)
              exact (hK.readInvariant hfill c).readParams hstart hread

end ReadFrame

/-- A relation of that kind which does not look at the descriptor. -/
structure FillFrame (K : Chan → Chan → Prop) : Prop where
  refl : ∀ c, K c c
  trans : ∀ {c c' c''}, K c c' → K c' c'' → K c c''
  stream : ∀ (c : Chan) (s : Stream), s.type = c.stream.type → s.isReader = c.stream.isReader →
    (c.stream.fcgiErrno ≠ 0 → s.fcgiErrno ≠ 0) → K c { c with stream := s }
  os : ∀ (c : Chan) (os : Os), K c { c with os := os }
  setRequestId : ∀ (c : Chan) (id : ℕ), c.req.isBeginProcessed = false → K c (c.setRequestId id)
  begins : ∀ (c d : Chan) (body : List UInt8), c.req.isBeginProcessed = false → K c d →
    K c { d with req := d.req.begin body }

namespace FillFrame

variable {K : Chan → Chan → Prop} {fill : Chan → Option Chan}

theorem readFrame (hK : FillFrame K) : ReadFrame K where
  refl := hK.refl
  trans := hK.trans
  stream := hK.stream
  read c _ := hK.os c _
  reply c _ _ := hK.os c _
  setRequestId := hK.setRequestId
  begins := hK.begins

theorem readInvariant (hK : FillFrame K) (hfill : ∀ c c', fill c = some c' → K c c') (k : Chan) :
    ReadInvariant fill (K k) :=
  hK.readFrame.readInvariant hfill k

theorem fillBuffProcAt (hK : FillFrame K) (d : ℕ) :
    ∀ c c', fillBuffProcAt d c = some c' → K c c' :=
  hK.readFrame.fillBuffProcAt d

end FillFrame

theorem fillFrame_kept : FillFrame Chan.Kept where
  refl := .refl
  trans := .trans
  stream _ _ htype _ herrno := ⟨.refl _, htype, herrno⟩
  os := .os
  setRequestId _ _ hawait :=
    ⟨⟨rfl, fun hbegun => by rw [hawait] at hbegun; cases hbegun⟩, rfl, id⟩
  begins _ _ _ hawait h :=
    ⟨⟨h.req.appStatus, fun hbegun => by rw [hawait] at hbegun; cases hbegun⟩, h.type, h.errno⟩

/-- **Reading** leaves the request as it was begun, the type of the stream, and an error. -/
theorem keeps_fillBuffProc : Keeps fillBuffProc := fillFrame_kept.fillBuffProcAt 2

theorem keepsData_fillBuffProc : KeepsData fillBuffProc :=
  fun c c' h => (keeps_fillBuffProc c c' h).req

theorem readParams_kept {p p' : Params} {rc : ℤ} {c c' : Chan}
    (h : readParams fillBuffProc p c = some (rc, p', c')) : c.Kept c' :=
  (fillFrame_kept.readInvariant keeps_fillBuffProc c).readParams (.refl c) h

/-! ### Writing -/

/-- What a writer does leaves everything but the number of writers. -/
def ReqData.SameButWriters (q q' : ReqData) : Prop := ∃ n, q' = { q with nWriters := n }

theorem ReqData.SameButWriters.refl (q : ReqData) : q.SameButWriters q := ⟨_, rfl⟩

theorem ReqData.SameButWriters.trans {q q' q'' : ReqData} (h : q.SameButWriters q')
    (h' : q'.SameButWriters q'') : q.SameButWriters q'' := by
  obtain ⟨n, rfl⟩ := h
  obtain ⟨n', rfl⟩ := h'
  exact ⟨n', rfl⟩

theorem ReqData.SameButWriters.kept {q q' : ReqData} (h : q.SameButWriters q') : q.Kept q' := by
  refine ⟨?_, fun _ => h⟩
  obtain ⟨n, rfl⟩ := h
  rfl

section Write

variable {c c' : Chan}

theorem writeInvariant_sameButWriters (q : ReqData) :
    WriteInvariant fun c => q.SameButWriters c.req where
  stream _ _ hc _ _ _ := hc
  sent _ _ _ hc _ := hc
  failed _ _ _ _ hc _ := hc

theorem writeInvariant_req (q : ReqData) : WriteInvariant fun c => c.req = q where
  stream _ _ hc _ _ _ := hc
  sent _ _ _ hc _ := hc
  failed _ _ _ _ hc _ := hc

theorem ReqData.SameButWriters.leaveWriter {q : ReqData} (h : q.SameButWriters c.req) :
    q.SameButWriters c.leaveWriter.req :=
  h.trans ⟨_, rfl⟩

theorem fcgxFClose_req {rc : ℤ} (h : fcgxFClose c = some (rc, c')) :
    c.req.SameButWriters c'.req :=
  (writeInvariant_sameButWriters c.req).fclose (fun _ hc => hc.leaveWriter) (.refl _) h

end Write

end FastCgi
