import QuantumSsh.Sftp.Paths
import QuantumSsh.Sftp.Requests

/-!
# One reply for each request

What `serve` does with an input depends on its bytes only, not on how they are cut into
reads. The bytes are packets, one after the other, and a tail; each packet was answered
by one reply with its id, and the tail is empty or begins with a violation.
-/

namespace QuantumSsh.Sftp

open Wire Parser Program

variable {κ F E : Type}

/-! ### What a session is to be -/

/-- A packet that fits its frame. -/
def IsPacket (packet : Bytes) : Prop := 0 < packet.length ∧ packet.length ≤ maxPacket

/-- A well-formed INIT. -/
def IsInit (packet : Bytes) : Prop :=
  ∃ version rest, version < 2 ^ 32 ∧ packet = fxpInit :: (putUint32 version ++ rest)

/-- The packet is what its place asks for. -/
def WellFormed (first : Bool) (packet : Bytes) : Prop :=
  if first then IsInit packet else ∃ id q, IsRequest packet id q

/-- The packets of a session without a violation. -/
inductive AreWellFormed : Bool → List Bytes → Prop
  | nil {first : Bool} : AreWellFormed first []
  | cons {first : Bool} {packet : Bytes} {packets : List Bytes} (hpacket : IsPacket packet)
      (h : WellFormed first packet) (hrest : AreWellFormed false packets) :
      AreWellFormed first (packet :: packets)

/-- The stream begins with a length that is cut, a bad length, or a packet that is cut. -/
inductive BadFrame : Bytes → Prop
  | cutLength {stream : Bytes} (hne : stream ≠ []) (h : stream.length < 4) : BadFrame stream
  | badLength {len : ℕ} {rest : Bytes} (hlt : len < 2 ^ 32) (h : len = 0 ∨ maxPacket < len) :
      BadFrame (putUint32 len ++ rest)
  | cutPacket {len : ℕ} {rest : Bytes} (hlt : len < 2 ^ 32) (h : rest.length < len) :
      BadFrame (putUint32 len ++ rest)

/-- The stream begins with a violation. -/
def Violates (first : Bool) (stream : Bytes) : Prop :=
  BadFrame stream ∨
    ∃ packet rest, IsPacket packet ∧ stream = frame packet ++ rest ∧ ¬WellFormed first packet

/-- A reply to the request of an id. -/
structure Answered (id : ℕ) (q : Request) (reply : Bytes) : Prop where
  tagged : ∃ kind body, reply = kind :: (putUint32 id ++ body)
  size : reply.length ≤ maxPacket
  data : ∀ body, reply = fxpData :: body → ∃ handle offset len data,
    q = .read handle offset len ∧ body = putUint32 id ++ putString data ∧
      data.length ≤ min len maxData

/-- The packets of a session, the reply to each, and what the session becomes. -/
inductive Talk (K : Kernel κ F E) (cwd : Bytes) :
    Bool → Server κ F E → List Bytes → List Bytes → Server κ F E → Prop
  | nil (first : Bool) (s : Server κ F E) : Talk K cwd first s [] [] s
  | init {s s' : Server κ F E} {packet : Bytes} {packets replies : List Bytes}
      (hpacket : IsPacket packet) (hinit : IsInit packet)
      (h : Talk K cwd false s packets replies s') :
      Talk K cwd true s (packet :: packets) (versionReply :: replies) s'
  | request {s s' : Server κ F E} {packet : Bytes} {packets replies : List Bytes} {id : ℕ}
      {q : Request} (hpacket : IsPacket packet) (hq : IsRequest packet id q)
      (hreply : Answered id q (perform K cwd id q s).1)
      (h : Talk K cwd false (perform K cwd id q s).2 packets replies s') :
      Talk K cwd false s (packet :: packets) ((perform K cwd id q s).1 :: replies) s'

/-- How a session ends: at the end of a clean input, or at a violation or a read that
failed, of which nothing was answered or done. -/
def Ends (input : List Read) (first : Bool) (tail : Bytes) (status : ℤ) : Prop :=
  status = 0 ∧ tail = [] ∧ .failed ∉ input ∨
    status = exitViolation ∧ (Violates first tail ∨ tail = [] ∧ .failed ∈ input)

/-- What is to hold of a session. -/
structure Served (K : Kernel κ F E) (cwd : Bytes) (input : List Read) (fs : κ)
    (o : Outcome κ F E) : Prop where
  talk : ∃ packets replies tail, streamOf input = packets.flatMap frame ++ tail ∧
    o.out = replies.flatMap frame ∧ Talk K cwd true { handles := [], fs } packets replies o.server ∧
    Ends input packets.isEmpty tail o.status ∧ ∀ reply ∈ replies, reply.length ≤ maxPacket
  status : o.status = 0 ↔ .failed ∉ input ∧
    ∃ packets, AreWellFormed true packets ∧ streamOf input = packets.flatMap frame

/-- The paths that the kernel gives are no longer than `PATH_MAX`. -/
structure Kernel.WithinLimits (K : Kernel κ F E) (cwd : Bytes) : Prop where
  resolved : ∀ path s p s', realpath K path cwd s = (.ok p, s') → p.length ≤ pathMax
  links : ∀ path s target s', K.readLink path s = (.ok target, s') → target.length ≤ pathMax

/-! ### The size of a reply -/

theorem length_putAttrs (m : Metadata) : (putAttrs m).length = attrsLen := by
  simp [putAttrs, attrsLen]

theorem length_putName (n : Name) : (putName n).length = n.size := by
  simp only [putName, List.length_append, length_putString, length_putAttrs, Name.size]
  omega

theorem length_statusMessage (code : ℕ) : (statusMessage code).length ≤ 21 := by
  unfold statusMessage
  repeat' split
  all_goals decide

theorem answered_status {id code : ℕ} {q : Request} : Answered id q (statusReply id code) where
  tagged := ⟨_, _, rfl⟩
  size := by
    have hmessage := length_statusMessage code
    simp only [statusReply, List.length_cons, List.length_append, length_putUint32,
      length_putString, List.length_nil, maxPacket]
    omega
  data := fun body h => absurd (List.cons.inj h).1 (by decide)

theorem answered_statusOf {id : ℕ} {q : Request} (result : Except IoError Unit) :
    Answered id q (statusOf id result) := by
  cases result with
  | ok _ => exact answered_status
  | error e => exact answered_status

theorem answered_attrsOf {id : ℕ} {q : Request} (result : Except IoError Metadata) :
    Answered id q (attrsOf id result) := by
  cases result with
  | error e => exact answered_status
  | ok m =>
    refine ⟨⟨_, _, rfl⟩, ?_, fun body h => absurd (List.cons.inj h).1 (by decide)⟩
    simp only [attrsOf, attrsReply, List.length_cons, List.length_append, length_putUint32,
      length_putAttrs, attrsLen, maxPacket]
    omega

theorem answered_nameOf {id : ℕ} {q : Request} {result : Except IoError Bytes}
    (h : ∀ path, result = .ok path → path.length ≤ pathMax) : Answered id q (nameOf id result) := by
  cases result with
  | error e => exact answered_status
  | ok path =>
    have hpath := h path rfl
    refine ⟨⟨_, _, rfl⟩, ?_, fun body h => absurd (List.cons.inj h).1 (by decide)⟩
    rw [pathMax] at hpath
    simp only [nameOf, nameReply, List.length_cons, List.length_append, length_putUint32,
      length_putString, maxPacket]
    omega

theorem answered_handle {id index : ℕ} {q : Request} : Answered id q (handleReply id index) where
  tagged := ⟨_, _, rfl⟩
  size := by
    simp only [handleReply, List.length_cons, List.length_append, length_putUint32,
      length_putString, maxPacket]
    omega
  data := fun body h => absurd (List.cons.inj h).1 (by decide)

theorem answered_data {id offset len : ℕ} {handle data : Bytes}
    (h : data.length ≤ min len maxData) :
    Answered id (.read handle offset len) (dataReply id data) where
  tagged := ⟨_, _, rfl⟩
  size := by
    have hmax : data.length ≤ maxData := le_trans h (min_le_right _ _)
    rw [maxData] at hmax
    simp only [dataReply, List.length_cons, List.length_append, length_putUint32,
      length_putString, maxPacket]
    omega
  data := by
    intro body hbody
    exact ⟨handle, offset, len, data, rfl, (List.cons.inj hbody).2.symm, h⟩

/-- What is gathered fits the packet, as it is added up. -/
theorem gather_size (K : Kernel κ F E) (now : ℤ) {entries : List (Except IoError E)}
    {names names' : List Name} {size : ℕ} {s : κ}
    (h : (gather K now entries names size s).1.1 = .ok names')
    (hsize : listingHead + (names.map Name.size).sum = size) (hle : size ≤ maxPacket) :
    listingHead + (names'.map Name.size).sum ≤ maxPacket := by
  induction entries generalizing names size s with
  | nil =>
    cases h
    exact hsize ▸ hle
  | cons next entries ih =>
    unfold gather at h
    split at h
    · cases h
      exact hsize ▸ hle
    · split at h
      · split at h
        · cases h
          exact hsize ▸ hle
        · cases h
      · split at h
        · exact ih h hsize hle
        next m _ _ =>
          dsimp only at h
          split at h
          · cases h
            exact hsize ▸ hle
          next hfits =>
            refine ih h ?_ (by omega)
            rw [List.map_append, List.sum_append, ← hsize]
            simp only [List.map_cons, List.map_nil, List.sum_cons, List.sum_nil]
            omega

theorem answered_listing {id : ℕ} {q : Request} {names : Except ℕ (List Name)}
    (h : ∀ ns, names = .ok ns → listingHead + (ns.map Name.size).sum ≤ maxPacket) :
    Answered id q (listingReply id names) := by
  match names, h with
  | .error code, _ => exact answered_status
  | .ok [], _ => exact answered_status
  | .ok (n :: ns), h =>
    have hsize := h _ rfl
    refine ⟨⟨_, _, rfl⟩, ?_, fun body h => absurd (List.cons.inj h).1 (by decide)⟩
    have hbody : ((n :: ns).flatMap putName).length = ((n :: ns).map Name.size).sum := by
      rw [List.length_flatMap]
      exact congrArg List.sum (List.map_congr_left fun n _ => length_putName n)
    rw [listingHead] at hsize
    simp only [listingReply, List.length_cons, List.length_append, length_putUint32] at hbody hsize ⊢
    omega

section

variable {K : Kernel κ F E} {cwd : Bytes} {id : ℕ} {q : Request} {s : Server κ F E}

theorem sys_bind {α β : Type} (p : Prog κ IoError α) (f : Except IoError α → Work κ F E β)
    (s : Server κ F E) : (sys p >>= f) s = f (p s.fs).1 { s with fs := (p s.fs).2 } :=
  rfl

theorem opening_eq {p : Prog κ IoError (Handle F E)} :
    opening K id p s =
      if s.hasFreeSlot then
        match p s.fs with
        | (.ok handle, fs) => insert K id handle { s with fs }
        | (.error e, fs) => (statusReply id (errorCode e), { s with fs })
      else (statusReply id fxFailure, s) := by
  change (if !s.hasFreeSlot then pure (statusReply id fxFailure) else
    sys p >>= _ : Work κ F E Bytes) s = _
  cases s.hasFreeSlot with
  | false => rfl
  | true =>
    simp only [Bool.not_true, Bool.false_eq_true, if_false, if_true, sys_bind]
    rcases p s.fs with ⟨_ | _, fs⟩
    · rfl
    · rfl

theorem answered_insert {handle : Handle F E} : Answered id q (insert K id handle s).1 := by
  unfold insert
  split
  · exact answered_handle
  · split
    · exact answered_handle
    · exact answered_status

theorem answered_opening {p : Prog κ IoError (Handle F E)} :
    Answered id q (opening K id p s).1 := by
  rw [opening_eq]
  split
  · split
    · exact answered_insert
    · exact answered_status
  · exact answered_status

/-- Work with a handle, whether it is open or not. -/
theorem answered_named {raw : Bytes} {work : Option (ℕ × Handle F E) → Work κ F E Bytes}
    (h : ∀ handle, Answered id q (work handle s).1) : Answered id q (named raw work s).1 :=
  h (s.handleOf raw)

theorem answered_close (handle : Option (ℕ × Handle F E)) :
    Answered id q (closeWork K id handle s).1 := by
  match handle with
  | none => exact answered_status
  | some (_, .file _ _ true) => exact answered_statusOf _
  | some (_, .file _ _ false) => exact answered_status
  | some (_, .dir _) => exact answered_status

theorem answered_onFile {work : F → Work κ F E Bytes}
    (h : ∀ file, Answered id q (work file s).1) (handle : Option (ℕ × Handle F E)) :
    Answered id q (onFile id work handle s).1 := by
  match handle with
  | none => exact answered_status
  | some (_, .dir _) => exact answered_status
  | some (_, .file file _ _) => exact h file

theorem answered_read {raw : Bytes} {offset len : ℕ} (handle : Option (ℕ × Handle F E)) :
    Answered id (.read raw offset len) (readWork K id offset len handle s).1 := by
  refine answered_onFile (fun file => ?_) handle
  rw [sys_bind]
  rcases (K.readAt file (min len maxData) offset s.fs).1 with e | ⟨_ | ⟨b, bs⟩, hlen⟩
  · exact answered_status
  · exact answered_status
  · exact answered_data hlen

theorem answered_write {offset : ℕ} {data : Bytes} (handle : Option (ℕ × Handle F E)) :
    Answered id q (writeWork K id offset data handle s).1 := by
  match handle with
  | none => exact answered_status
  | some (_, .dir _) => exact answered_status
  | some (_, .file _ _ _) => exact answered_statusOf _

theorem answered_readdir (handle : Option (ℕ × Handle F E)) :
    Answered id q (readdirWork K id handle s).1 := by
  match handle with
  | none => exact answered_status
  | some (_, .file _ _ _) => exact answered_status
  | some (_, .dir entries) =>
    exact answered_listing fun ns hns => gather_size K _ hns rfl (by decide)

/-- Every request is answered. -/
theorem answered_perform (hlimits : K.WithinLimits cwd) : Answered id q (perform K cwd id q s).1 := by
  cases q with
  | «open» => exact answered_opening
  | opendir => exact answered_opening
  | close => exact answered_named answered_close
  | read => exact answered_named answered_read
  | write => exact answered_named answered_write
  | readdir => exact answered_named answered_readdir
  | fstat => exact answered_named (answered_onFile fun file => answered_attrsOf _)
  | fsetstat | fsync => exact answered_named (answered_onFile fun file => answered_statusOf _)
  | stat path follow => exact answered_attrsOf _
  | setstat | remove | mkdir | rmdir | rename | symlink | posixRename => exact answered_statusOf _
  | realpath path =>
    refine answered_nameOf fun p hp => hlimits.resolved (orDot path) s.fs p _ (Prod.ext hp rfl)
  | readlink path =>
    exact answered_nameOf fun p hp => hlimits.links (orDot path) s.fs p _ (Prod.ext hp rfl)
  | expandPath path =>
    refine answered_nameOf fun p hp => ?_
    cases hexpand : expand cwd path with
    | error e => rw [hexpand] at hp; cases hp
    | ok path' =>
      rw [hexpand] at hp
      exact hlimits.resolved path' s.fs p _ (Prod.ext hp rfl)
  | limits =>
    refine ⟨⟨_, _, rfl⟩, ?_, fun body h => absurd (List.cons.inj h).1 (by decide)⟩
    change (limitsReply id).length ≤ maxPacket
    simp only [limitsReply, List.length_cons, List.length_append, length_putUint32,
      length_putUint64, maxPacket]
    omega
  | unsupported => exact answered_status

end

/-! ### Reads -/

section

variable {input : List Read} {want : ℕ} {got : Bytes}

/-- A buffer that the input can fill is filled, however it comes. -/
theorem fill_full (h : want ≤ (streamOf input).length) :
    ∃ input', fill input want got = (.full (got ++ (streamOf input).take want), input') ∧
      streamOf input' = (streamOf input).drop want ∧ (.failed ∈ input' ↔ .failed ∈ input) := by
  induction input generalizing want got with
  | nil =>
    obtain rfl : want = 0 := by simpa [streamOf] using h
    exact ⟨[], by simp [fill], rfl, Iff.rfl⟩
  | cons e input ih =>
    cases want with
    | zero => exact ⟨e :: input, by simp [fill], rfl, Iff.rfl⟩
    | succ want =>
      cases e with
      | interrupted =>
        obtain ⟨input', hfill, hstream, hfailed⟩ := @ih (want + 1) got h
        exact ⟨input', hfill, hstream, by rw [hfailed]; simp⟩
      | failed => simp [streamOf] at h
      | chunk b bs =>
        have hstream : streamOf (.chunk b bs :: input) = b :: (bs ++ streamOf input) := rfl
        rw [hstream] at h ⊢
        rw [List.length_cons, List.length_append] at h
        cases hdrop : bs.drop want with
        | nil =>
          have hle : bs.length ≤ want := List.drop_eq_nil_iff.1 hdrop
          obtain ⟨input', hfill, hrest, hfailed⟩ :=
            @ih (want - bs.length) (got ++ b :: bs) (by omega)
          refine ⟨input', ?_, ?_, by rw [hfailed]; simp⟩
          · rw [fill, hdrop]
            dsimp only
            rw [hfill, List.take_succ_cons, List.take_append, List.take_of_length_le hle]
            simp
          · rw [hrest, List.drop_succ_cons, List.drop_append, hdrop, List.nil_append]
        | cons c cs =>
          have hlt : want < bs.length := by
            by_contra hge
            rw [List.drop_eq_nil_iff.2 (by omega)] at hdrop
            cases hdrop
          refine ⟨.chunk c cs :: input, ?_, ?_, by simp⟩
          · rw [fill, hdrop]
            dsimp only
            rw [List.take_succ_cons, List.take_append_of_le_length hlt.le]
          · rw [List.drop_succ_cons, List.drop_append_of_le_length hlt.le, hdrop]
            rfl

/-- A buffer that it cannot fill takes all of it. -/
theorem fill_short (h : (streamOf input).length < want) :
    ∃ input', fill input want got =
      (if .failed ∈ input then .failed else .ended (got ++ streamOf input), input') := by
  induction input generalizing want got with
  | nil =>
    obtain ⟨n, rfl⟩ : ∃ n, want = n + 1 := ⟨want - 1, by omega⟩
    exact ⟨[], by simp [fill, streamOf]⟩
  | cons e input ih =>
    obtain ⟨n, rfl⟩ : ∃ n, want = n + 1 := ⟨want - 1, by omega⟩
    cases e with
    | interrupted =>
      obtain ⟨input', hfill⟩ := @ih (n + 1) got h
      refine ⟨input', ?_⟩
      rw [fill, hfill]
      simp [streamOf]
    | failed => exact ⟨input, by simp [fill]⟩
    | chunk b bs =>
      have hstream : streamOf (.chunk b bs :: input) = b :: (bs ++ streamOf input) := rfl
      rw [hstream] at h ⊢
      rw [List.length_cons, List.length_append] at h
      have hdrop : bs.drop n = [] := List.drop_eq_nil_iff.2 (by omega)
      obtain ⟨input', hfill⟩ := @ih (n - bs.length) (got ++ b :: bs) (by omega)
      refine ⟨input', ?_⟩
      rw [fill, hdrop]
      dsimp only
      rw [hfill]
      simp

end

/-! ### Packets of a stream -/

theorem frame_append_inj {p p' r r' : Bytes} (hp : IsPacket p) (hp' : IsPacket p')
    (h : frame p ++ r = frame p' ++ r') : p = p' ∧ r = r' :=
  putString_append_inj (lt_of_le_of_lt hp.2 (by decide)) (lt_of_le_of_lt hp'.2 (by decide)) h

theorem frame_ne_nil (p : Bytes) : frame p ≠ [] := by
  intro h
  have hlen := congrArg List.length h
  simp [frame] at hlen

theorem badFrame_ne_nil {stream : Bytes} (h : BadFrame stream) : stream ≠ [] := by
  cases h with
  | cutLength hne _ => exact hne
  | badLength _ _ => exact List.append_ne_nil_of_left_ne_nil (by simp [putUint32]) _
  | cutPacket _ _ => exact List.append_ne_nil_of_left_ne_nil (by simp [putUint32]) _

/-- A frame that holds a packet is not bad. -/
theorem not_badFrame {packet rest : Bytes} (hpacket : IsPacket packet) :
    ¬BadFrame (frame packet ++ rest) := by
  have hlt : packet.length < 2 ^ 32 := lt_of_le_of_lt hpacket.2 (by decide)
  -- The length in front of the packet is its own.
  have hlen : ∀ {len : ℕ} {r : Bytes}, len < 2 ^ 32 →
      putUint32 len ++ r = frame packet ++ rest → len = packet.length ∧ r = packet ++ rest := by
    intro len r hlen h
    rw [frame, List.append_assoc] at h
    obtain ⟨hput, rfl⟩ := List.append_inj h rfl
    exact ⟨putUint32_inj hlen hlt hput, rfl⟩
  intro h
  generalize hstream : frame packet ++ rest = stream at h
  cases h with
  | cutLength hne hshort =>
    rw [← hstream] at hshort
    simp [frame] at hshort
  | badLength hl hbad =>
    obtain ⟨rfl, -⟩ := hlen hl hstream.symm
    have h1 := hpacket.1
    have h2 := hpacket.2
    omega
  | cutPacket hl hcut =>
    obtain ⟨rfl, rfl⟩ := hlen hl hstream.symm
    rw [List.length_append] at hcut
    omega

/-- A stream is at its end, begins with a packet, or with a bad frame. -/
theorem stream_cases (stream : Bytes) :
    stream = [] ∨ BadFrame stream ∨
      ∃ packet rest, IsPacket packet ∧ stream = frame packet ++ rest := by
  by_cases hnil : stream = []
  · exact .inl hnil
  by_cases hshort : stream.length < 4
  · exact .inr (.inl (.cutLength hnil hshort))
  have htake : (stream.take 4).length = 4 := by
    rw [List.length_take]
    omega
  have hvalue := beValue_lt (stream.take 4)
  rw [htake] at hvalue
  have hsplit : stream = putUint32 (beValue (stream.take 4)) ++ stream.drop 4 := by
    rw [putUint32_beValue htake, List.take_append_drop]
  generalize beValue (stream.take 4) = len at hvalue hsplit
  generalize stream.drop 4 = rest at hsplit
  subst hsplit
  by_cases hbad : len = 0 ∨ maxPacket < len
  · exact .inr (.inl (.badLength hvalue hbad))
  by_cases hcut : rest.length < len
  · exact .inr (.inl (.cutPacket hvalue hcut))
  have hlen : (rest.take len).length = len := by
    rw [List.length_take]
    omega
  refine .inr (.inr ⟨rest.take len, rest.drop len, ⟨by omega, by omega⟩, ?_⟩)
  rw [frame, hlen, List.append_assoc, List.take_append_drop]

/-! ### The packets that are read -/

section

variable {input : List Read}

/-- At the end of the stream. -/
theorem readPacket_end (h : streamOf input = []) :
    ∃ input', readPacket input =
      (if .failed ∈ input then .error .violation else .ok none, input') := by
  obtain ⟨input', hfill⟩ := @fill_short input 4 [] (by rw [h]; decide)
  refine ⟨input', ?_⟩
  rw [readPacket, hfill, h]
  by_cases hfailed : .failed ∈ input
  · simp [hfailed]
  · simp [hfailed]

theorem readPacket_packet {packet rest : Bytes} (hpacket : IsPacket packet)
    (h : streamOf input = frame packet ++ rest) :
    ∃ input', readPacket input = (.ok (some packet), input') ∧ streamOf input' = rest ∧
      (.failed ∈ input' ↔ .failed ∈ input) := by
  have hlt : packet.length < 2 ^ 32 := lt_of_le_of_lt hpacket.2 (by decide)
  rw [frame, List.append_assoc] at h
  obtain ⟨input₁, hfill₁, hstream₁, hfailed₁⟩ :=
    @fill_full input 4 [] (by rw [h]; simp)
  have htake : (streamOf input).take 4 = putUint32 packet.length := by rw [h]; rfl
  have hdrop : streamOf input₁ = packet ++ rest := by rw [hstream₁, h]; rfl
  obtain ⟨input₂, hfill₂, hstream₂, hfailed₂⟩ :=
    @fill_full input₁ packet.length [] (by rw [hdrop]; simp)
  refine ⟨input₂, ?_, by rw [hstream₂, hdrop, List.drop_left], hfailed₂.trans hfailed₁⟩
  have hgood : ¬(packet.length = 0 ∨ maxPacket < packet.length) := by
    have h1 := hpacket.1
    have h2 := hpacket.2
    omega
  rw [readPacket, hfill₁, htake]
  dsimp only
  rw [List.nil_append, beValue_putUint32 hlt, if_neg hgood, hfill₂, hdrop, List.take_left]
  rfl

theorem readPacket_bad (h : BadFrame (streamOf input)) :
    ∃ input', readPacket input = (.error .violation, input') := by
  generalize hstream : streamOf input = stream at h
  -- The length is whole in all cases but the first.
  have hwhole : ∀ {len : ℕ} {rest : Bytes}, len < 2 ^ 32 → streamOf input = putUint32 len ++ rest →
      ∃ input₁, fill input 4 [] = (.full (putUint32 len), input₁) ∧ streamOf input₁ = rest := by
    intro len rest hlt hlen
    obtain ⟨input₁, hfill, hrest, -⟩ :=
      @fill_full input 4 [] (by rw [hlen]; simp)
    refine ⟨input₁, ?_, by rw [hrest, hlen]; rfl⟩
    rw [hfill, hlen]
    rfl
  cases h with
  | cutLength hne hshort =>
    obtain ⟨input', hfill⟩ :=
      @fill_short input 4 [] (by rw [hstream]; exact hshort)
    refine ⟨input', ?_⟩
    rw [readPacket, hfill, hstream]
    by_cases hfailed : .failed ∈ input
    · simp [hfailed]
    · obtain ⟨b, bs, rfl⟩ := List.exists_cons_of_ne_nil hne
      simp [hfailed]
  | @badLength len rest hlt hbad =>
    obtain ⟨input₁, hfill, -⟩ := hwhole hlt hstream
    refine ⟨input₁, ?_⟩
    rw [readPacket, hfill]
    dsimp only
    rw [beValue_putUint32 hlt, if_pos hbad]
  | @cutPacket len rest hlt hcut =>
    obtain ⟨input₁, hfill, hrest⟩ := hwhole hlt hstream
    obtain ⟨input₂, hfill₂⟩ :=
      @fill_short input₁ len [] (by rw [hrest]; exact hcut)
    rw [readPacket, hfill]
    dsimp only
    rw [beValue_putUint32 hlt]
    split
    · exact ⟨input₁, rfl⟩
    · rw [hfill₂]
      by_cases hfailed : .failed ∈ input₁
      · exact ⟨input₂, by simp [hfailed]⟩
      · exact ⟨input₂, by simp [hfailed]⟩

end

/-! ### Answers -/

section

variable {K : Kernel κ F E} {cwd packet : Bytes} {s : Server κ F E}

theorem greet_init (h : IsInit packet) : greet packet = .ok versionReply := by
  obtain ⟨version, rest, hlt, rfl⟩ := h
  have hversion := Reader.uint32_putUint32 hlt rest
  unfold greet
  rw [show Reader.byte.run (fxpInit :: (putUint32 version ++ rest)) =
    .ok (fxpInit, putUint32 version ++ rest) from rfl]
  dsimp only
  rw [if_pos rfl, hversion]

theorem greet_other (h : ¬IsInit packet) : greet packet = .error .violation := by
  cases packet with
  | nil => rfl
  | cons b r =>
    unfold greet
    rw [show Reader.byte.run (b :: r) = .ok (b, r) from rfl]
    dsimp only
    split
    next hb =>
      cases hversion : Reader.uint32.run r with
      | error e => rfl
      | ok v =>
        obtain ⟨version, rest⟩ := v
        obtain ⟨hlt, rfl⟩ := Reader.uint32_ok.1 hversion
        exact absurd ⟨version, rest, hlt, by rw [hb]⟩ h
    next => rfl

/-- A packet that is not what its place asks for changes nothing. -/
theorem answer_malformed {first : Bool} (h : ¬WellFormed first packet) :
    answer K cwd first packet s = (.error .violation, s) := by
  cases first with
  | true => exact congrArg (fun g => (g, s)) (greet_other h)
  | false => exact handle_malformed fun id q hq => h ⟨id, q, hq⟩

/-- A packet that is takes the session one reply further. -/
theorem answer_wellFormed {first : Bool} (hlimits : K.WithinLimits cwd) (hpacket : IsPacket packet)
    (h : WellFormed first packet) :
    ∃ reply s', answer K cwd first packet s = (.ok reply, s') ∧
      ∀ packets replies s'', Talk K cwd false s' packets replies s'' →
        Talk K cwd first s (packet :: packets) (reply :: replies) s'' := by
  cases first with
  | true =>
    refine ⟨versionReply, s, congrArg (fun g => (g, s)) (greet_init h), ?_⟩
    exact fun packets replies s'' htalk => .init hpacket h htalk
  | false =>
    obtain ⟨id, q, hq⟩ := h
    refine ⟨_, _, handle_request hq, fun packets replies s'' htalk => ?_⟩
    exact .request hpacket hq (answered_perform hlimits) htalk

end

/-! ### Sessions -/

section

variable {K : Kernel κ F E} {cwd : Bytes}

/-- What the rest of a session does, whatever went before. -/
theorem serveLoop_talk (hlimits : K.WithinLimits cwd) {fuel : ℕ} {input : List Read} {first : Bool}
    {s : Server κ F E} {out : Bytes} (hfuel : (streamOf input).length < fuel) :
    ∃ packets replies tail, streamOf input = packets.flatMap frame ++ tail ∧
      (serveLoop K cwd fuel input first s out).out = out ++ replies.flatMap frame ∧
      Talk K cwd first s packets replies (serveLoop K cwd fuel input first s out).server ∧
      Ends input (first && packets.isEmpty) tail (serveLoop K cwd fuel input first s out).status := by
  induction fuel generalizing input first s out with
  | zero => omega
  | succ fuel ih =>
    rw [serveLoop]
    -- The stream ends, its next length is out of range, or a packet comes next.
    obtain hend | hbad | ⟨packet, rest, hpacket, hstream⟩ := stream_cases (streamOf input)
    · obtain ⟨input', hread⟩ := readPacket_end hend
      rw [hread]
      by_cases hfailed : .failed ∈ input
      · rw [if_pos hfailed]
        exact ⟨[], [], [], by simpa using hend, by simp, .nil first s,
          .inr ⟨rfl, .inr ⟨rfl, hfailed⟩⟩⟩
      · rw [if_neg hfailed]
        exact ⟨[], [], [], by simpa using hend, by simp, .nil first s, .inl ⟨rfl, rfl, hfailed⟩⟩
    · obtain ⟨input', hread⟩ := readPacket_bad hbad
      rw [hread]
      exact ⟨[], [], streamOf input, by simp, by simp, .nil first s, .inr ⟨rfl, .inl (.inl hbad)⟩⟩
    · obtain ⟨input', hread, hrest, hfailed⟩ := readPacket_packet hpacket hstream
      rw [hread]
      by_cases hgood : WellFormed first packet
      · obtain ⟨reply, s', hanswer, htalk⟩ := @answer_wellFormed _ _ _ _ _ _ s _ hlimits hpacket hgood
        -- A packet is not empty on the stream, so the fuel lasts.
        have hshort : (streamOf input').length < fuel := by
          have hlen := congrArg List.length hstream
          rw [List.length_append, ← hrest] at hlen
          have hpos := List.length_pos_iff.2 (frame_ne_nil packet)
          omega
        obtain ⟨packets, replies, tail, htail, hout, hmore, hends⟩ :=
          @ih input' false s' (out ++ frame reply) hshort
        dsimp only
        rw [hanswer]
        refine ⟨packet :: packets, reply :: replies, tail, ?_, ?_, htalk _ _ _ hmore, ?_⟩
        · rw [hstream, ← hrest, htail, List.flatMap_cons, List.append_assoc]
        · rw [hout, List.flatMap_cons, List.append_assoc]
        · rw [Bool.false_and] at hends
          unfold Ends at hends ⊢
          rwa [List.isEmpty_cons, Bool.and_false, ← hfailed]
      · dsimp only
        rw [answer_malformed hgood]
        refine ⟨[], [], streamOf input, by simp, by simp, .nil first s, .inr ⟨rfl, .inl (.inr ?_)⟩⟩
        exact ⟨packet, rest, hpacket, hstream, by simpa using hgood⟩

theorem Talk.wellFormed {first : Bool} {s s' : Server κ F E} {packets replies : List Bytes}
    (h : Talk K cwd first s packets replies s') : AreWellFormed first packets := by
  induction h with
  | nil => exact .nil
  | init hpacket hinit _ ih => exact .cons hpacket hinit ih
  | request hpacket hq _ _ ih => exact .cons hpacket ⟨_, _, hq⟩ ih

theorem length_versionReply : versionReply.length ≤ maxPacket := by decide +kernel

theorem Talk.size {first : Bool} {s s' : Server κ F E} {packets replies : List Bytes}
    (h : Talk K cwd first s packets replies s') : ∀ reply ∈ replies, reply.length ≤ maxPacket := by
  induction h with
  | nil => simp
  | init _ _ _ ih => exact List.forall_mem_cons.2 ⟨length_versionReply, ih⟩
  | request _ _ hreply _ ih => exact List.forall_mem_cons.2 ⟨hreply.size, ih⟩

/-- A stream of well-formed packets meets no violation, wherever it is cut. -/
theorem not_violates {first : Bool} {packets packets' : List Bytes} {tail : Bytes}
    (h : AreWellFormed first packets) (h' : AreWellFormed first packets')
    (heq : packets.flatMap frame ++ tail = packets'.flatMap frame) :
    ¬Violates (first && packets.isEmpty) tail := by
  induction packets generalizing first packets' with
  | nil =>
    rw [List.flatMap_nil, List.nil_append] at heq
    subst heq
    rw [List.isEmpty_nil, Bool.and_true]
    cases h' with
    | nil =>
      rintro (hbad | ⟨packet, rest, -, hnil, -⟩)
      · exact badFrame_ne_nil hbad rfl
      · exact frame_ne_nil packet (List.append_eq_nil_iff.1 hnil.symm).1
    | cons hpacket hgood hrest =>
      rw [List.flatMap_cons]
      rintro (hbad | ⟨packet, rest, hpacket', hstream, hmalformed⟩)
      · exact not_badFrame hpacket hbad
      · obtain ⟨rfl, -⟩ := frame_append_inj hpacket hpacket' hstream
        exact hmalformed hgood
  | cons packet packets ih =>
    cases h with
    | cons hpacket hgood hrest =>
      cases h' with
      | nil =>
        rw [List.flatMap_cons, List.append_assoc] at heq
        exact absurd (List.append_eq_nil_iff.1 heq).1 (frame_ne_nil packet)
      | cons hpacket' hgood' hrest' =>
        rw [List.flatMap_cons, List.flatMap_cons, List.append_assoc] at heq
        obtain ⟨-, heq⟩ := frame_append_inj hpacket hpacket' heq
        have hnot := ih hrest hrest' heq
        rwa [List.isEmpty_cons, Bool.and_false]

/-- `serve` answers each request once, in order and with its id, up to the first
violation; it returns 0 exactly at the end of a stream without one. -/
theorem serve_answers_once (hlimits : K.WithinLimits cwd) (input : List Read) (fs : κ) :
    Served K cwd input fs (serve K cwd input fs) := by
  obtain ⟨packets, replies, tail, hstream, hout, htalk, hends⟩ :=
    @serveLoop_talk _ _ _ _ _ hlimits ((streamOf input).length + 1) input true
      { handles := [], fs } [] (Nat.lt_succ_self _)
  refine ⟨⟨packets, replies, tail, hstream, hout, htalk, hends, htalk.size⟩, ?_⟩
  obtain ⟨hstatus, rfl, hclean⟩ | ⟨hstatus, hviolation⟩ := hends
  · refine iff_of_true hstatus ⟨hclean, packets, htalk.wellFormed, ?_⟩
    rw [hstream, List.append_nil]
  · refine iff_of_false ?_ ?_
    · change (serveLoop ..).status ≠ 0
      rw [hstatus]
      decide
    · rintro ⟨hclean, packets', hgood, hall⟩
      obtain hviolation | ⟨-, hfailed⟩ := hviolation
      · exact not_violates htalk.wellFormed hgood (hstream.symm.trans hall) hviolation
      · exact hclean hfailed

end

theorem withinLimits {K : Kernel κ F E} {cwd : Bytes} (hcwd : cwd.length ≤ pathMax)
    (hlookup : K.LooksUpShort)
    (hlinks : ∀ path s target s', K.readLink path s = (.ok target, s') → target.length ≤ pathMax) :
    K.WithinLimits cwd where
  resolved := fun _ _ _ _ h => length_realpath_le hlookup hcwd h
  links := hlinks

/-- What an empty file system says to a path. -/
def nothingAt {α : Type} (path : Bytes) : Prog Unit IoError α :=
  fail (if path.length ≤ pathMax then .ofKind .notFound else .ofKind .other)

/-- A kernel with an empty file system. -/
def emptyKernel : Kernel Unit Empty Empty where
  «open» := fun path _ _ => nothingAt path
  close := fun file _ => file.elim
  metadata := fun file => file.elim
  readAt := fun file _ _ => file.elim
  writeAt := fun file _ _ => file.elim
  write := fun file _ => file.elim
  syncData := fun file => file.elim
  syncAll := fun file => file.elim
  setLen := fun file _ => file.elim
  fchown := fun file _ _ => file.elim
  fchmod := fun file _ => file.elim
  futimens := fun file _ _ => file.elim
  readDir := nothingAt
  fileName := fun entry => entry.elim
  entryMetadata := fun entry => entry.elim
  stat := nothingAt
  lstat := nothingAt
  chown := fun path _ _ => nothingAt path
  chmod := fun path _ => nothingAt path
  utimens := fun path _ _ => nothingAt path
  removeFile := nothingAt
  createDir := fun path _ => nothingAt path
  removeDir := nothingAt
  readLink := nothingAt
  hardLink := fun old _ => nothingAt old
  rename := fun old _ => nothingAt old
  symlink := fun _ link => nothingAt link
  now := fun _ => 0
  interrupts := fun _ => 0
  writeAt_interrupted := fun file => file.elim
  write_interrupted := fun file => file.elim

theorem withinLimits_emptyKernel : emptyKernel.WithinLimits [slash] := by
  refine withinLimits (by decide) (fun path s hlong => ?_) fun path s target s' h => by cases h
  refine ⟨.ofKind .other, s, ?_, by decide⟩
  change (_, _) = _
  rw [if_neg (Nat.not_le.2 hlong)]

/-- INIT and a STAT, in three reads of which one is interrupted. -/
def statInput : List Read :=
  [.chunk 0 [0, 0, 5, 1, 0, 0], .interrupted,
    .chunk 0 [3, 0, 0, 0, 10, 17, 0, 0, 0, 7, 0, 0, 0, 1, 47]]

theorem serve_answers_once_stat :
    (serve emptyKernel [slash] statInput ()).status = 0 ∧
      (serve emptyKernel [slash] statInput ()).out =
        frame versionReply ++ frame (statusReply 7 fxNoSuchFile) ∧
      Served emptyKernel [slash] statInput () (serve emptyKernel [slash] statInput ()) :=
  ⟨by decide +kernel, by decide +kernel, serve_answers_once withinLimits_emptyKernel statInput ()⟩

end QuantumSsh.Sftp
