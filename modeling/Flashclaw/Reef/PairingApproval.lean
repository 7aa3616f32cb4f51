import Flashclaw.Reef.Revocation

/-!
# Reef: pairing approvals

An approval token tells the peer, the key epoch, the keys and the revision that it
was made for; with this, what a revocation of trust outlives.
-/

namespace Flashclaw.Reef.ReefTrustStore

open Utf16

theorem natText_injective : Function.Injective OcPath.natText := by
  have hvalue : ∀ n, Digits.value (Digits.span (OcPath.natText n)).1 = n := by
    intro n
    unfold OcPath.natText
    split_ifs with hn
    · rw [hn]
      decide
    · have hspan : Digits.span (Digits.toText (Digits.ofNat n) ++ []) = (Digits.ofNat n, []) :=
        Digits.span_append (fun d hd => Digits.lt_of_mem_ofNat hd) (by rintro c rest ⟨⟩)
      rw [List.append_nil] at hspan
      rw [hspan, Digits.value_ofNat]
  intro n m h
  rw [← hvalue n, h, hvalue]

theorem isDigit_of_mem_natText {n : ℕ} {c : CodeUnit} (h : c ∈ OcPath.natText n) :
    0x30 ≤ c.val ∧ c.val < 0x3A := by
  unfold OcPath.natText at h
  split_ifs at h
  · rw [List.mem_singleton.mp h]
    decide
  · obtain ⟨d, hd, rfl⟩ := List.mem_map.mp h
    have hlt := Digits.lt_of_mem_ofNat hd
    rw [Fin.val_ofNat, Nat.mod_eq_of_lt (by omega)]
    omega

theorem notMem_natText {c : CodeUnit} (hc : c.val < 0x30 ∨ 0x3A ≤ c.val) (n : ℕ) :
    c ∉ OcPath.natText n := by
  intro h
  have := isDigit_of_mem_natText h
  omega

/-- A handle has no colon. -/
theorem colon_notMem_handle {handle : Utf16} (h : isTargetHandle handle = true) :
    unit ':' ∉ handle := by
  intro hmem
  unfold isTargetHandle isHandle at h
  simp only [Bool.and_eq_true] at h
  obtain ⟨⟨⟨⟨-, hstart⟩, hparts⟩, -⟩, -⟩ := h
  rw [← List.take_append_drop 1 handle, List.mem_append] at hmem
  rcases hmem with hmem | hmem
  · have := List.all_eq_true.mp hstart _ hmem
    revert this
    decide
  · have := List.all_eq_true.mp hparts _ hmem
    revert this
    decide

section Tokens

variable {host : ApprovalHost} (hsha : Function.Injective host.sha256)

include hsha in
/-- The texts that two equal digests were made of. -/
theorem signed_of_digest {friend friend' : RelayFriend} {n n' : ℕ}
    (h : resolvePairingKeyDigest host friend n = resolvePairingKeyDigest host friend' n') :
    utf8 (friend.peer ++ unit '\n' :: (OcPath.natText friend.key_epoch ++ unit '\n' ::
      (OcPath.natText n ++ unit '\n' :: (friend.ed25519_pub ++ unit '\n' ::
        friend.x25519_pub)))) =
    utf8 (friend'.peer ++ unit '\n' :: (OcPath.natText friend'.key_epoch ++ unit '\n' ::
      (OcPath.natText n' ++ unit '\n' :: (friend'.ed25519_pub ++ unit '\n' ::
        friend'.x25519_pub)))) := by
  apply hsha
  have hbytes := congrArg hexBytes h
  unfold resolvePairingKeyDigest at hbytes
  rwa [hexBytes_hex, hexBytes_hex] at hbytes

/-- Keys that a digest tells apart from what stands around them. -/
def PlainKeys (friend : RelayFriend) : Prop :=
  (unit '\n' ∉ friend.ed25519_pub ∧ isWellFormed friend.ed25519_pub = true) ∧
    unit '\n' ∉ friend.x25519_pub ∧ isWellFormed friend.x25519_pub = true

theorem lineFeed_notMem_utf8 {s : Utf16} (h : unit '\n' ∉ s) :
    Utf8.byte (unit '\n').val ∉ utf8 s := by
  intro hmem
  apply h
  exact Utf8.mem_of_mem_encode (b := Utf8.byte (unit '\n').val) (by decide) hmem

theorem keys_of_signed (front front' : Utf16) {friend friend' : RelayFriend}
    (hplain : PlainKeys friend) (hplain' : PlainKeys friend')
    (h : utf8 ((front ++ unit '\n' :: friend.ed25519_pub) ++ unit '\n' :: friend.x25519_pub) =
      utf8 ((front' ++ unit '\n' :: friend'.ed25519_pub) ++ unit '\n' :: friend'.x25519_pub)) :
    friend.ed25519_pub = friend'.ed25519_pub ∧ friend.x25519_pub = friend'.x25519_pub := by
  obtain ⟨⟨hed, hedform⟩, hx, hxform⟩ := hplain
  obtain ⟨⟨hed', hedform'⟩, hx', hxform'⟩ := hplain'
  unfold utf8 at h
  have hascii : (unit '\n').val < 0x80 := by decide
  simp only [Utf8.encode_append_cons hascii] at h
  -- the keys have no line feed, so that the last two separators are theirs
  obtain ⟨hfront, hlast⟩ :=
    Lists.append_cons_inj_last (lineFeed_notMem_utf8 hx) (lineFeed_notMem_utf8 hx') h
  obtain ⟨-, hkey⟩ :=
    Lists.append_cons_inj_last (lineFeed_notMem_utf8 hed) (lineFeed_notMem_utf8 hed') hfront
  exact ⟨Utf8.encode_injective hedform hedform' hkey, Utf8.encode_injective hxform hxform' hlast⟩

include hsha in
/-- What two equal tokens were made for. -/
theorem createPairingApproval_inj {identityScope token : Utf16} {friend friend' : RelayFriend}
    {n n' : ℕ} (hplain : PlainKeys friend) (hplain' : PlainKeys friend')
    (h : createPairingApproval host identityScope friend n = some token)
    (h' : createPairingApproval host identityScope friend' n' = some token) :
    normalizeReefTarget host friend.peer = normalizeReefTarget host friend'.peer ∧
      friend.key_epoch = friend'.key_epoch ∧ friend.ed25519_pub = friend'.ed25519_pub ∧
      friend.x25519_pub = friend'.x25519_pub ∧ n = n' := by
  obtain ⟨peer, hpeer, htoken⟩ := Option.map_eq_some_iff.mp h
  obtain ⟨peer', hpeer', htoken'⟩ := Option.map_eq_some_iff.mp h'
  have hhandle : ∀ {raw handle : Utf16}, normalizeReefTarget host raw = some handle →
      unit ':' ∉ handle := by
    intro raw handle hraw
    unfold normalizeReefTarget at hraw
    dsimp only at hraw
    split_ifs at hraw with hvalid
    rw [← Option.some.inj hraw]
    exact colon_notMem_handle hvalid
  have hdigits : ∀ m, unit ':' ∉ OcPath.natText m := notMem_natText (by decide)
  have heq := htoken.trans htoken'.symm
  obtain ⟨rfl, hrest⟩ := Lists.append_cons_inj_first (hhandle hpeer) (hhandle hpeer')
    (List.cons.inj (List.append_cancel_left (List.append_cancel_left heq))).2
  obtain ⟨hepoch, hrest⟩ := Lists.append_cons_inj_first (hdigits _) (hdigits _) hrest
  obtain ⟨hrevision, hdigest⟩ := Lists.append_cons_inj_first (hdigits _) (hdigits _) hrest
  have hsigned := signed_of_digest hsha hdigest
  have hkeys := keys_of_signed
    (friend.peer ++ unit '\n' :: (OcPath.natText friend.key_epoch ++ unit '\n' ::
      OcPath.natText n))
    (friend'.peer ++ unit '\n' :: (OcPath.natText friend'.key_epoch ++ unit '\n' ::
      OcPath.natText n')) hplain hplain' (by simpa using hsigned)
  exact ⟨hpeer.trans hpeer'.symm, natText_injective hepoch, hkeys.1, hkeys.2,
    natText_injective hrevision⟩

/-- A text that is accepted for a friend while the row is at its revision is no token of another
friend, of other keys or of another revision. -/
def ApprovalsExact (host : ApprovalHost) : Prop :=
  ∀ {ι : Type} (identityScope raw token : Utf16) (row : Row ι) (friend friend' : RelayFriend)
    (trustRevision : ℕ), PlainKeys friend → PlainKeys friend' →
    createPairingApproval host identityScope friend trustRevision = some token →
    trim raw = token →
    matchesPairingApproval host identityScope row raw friend' = some true →
    normalizeReefTarget host friend.peer = normalizeReefTarget host friend'.peer ∧
      friend.key_epoch = friend'.key_epoch ∧ friend.ed25519_pub = friend'.ed25519_pub ∧
      friend.x25519_pub = friend'.x25519_pub ∧ trustRevision = revision row

include hsha in
theorem approvalsExact : ApprovalsExact host := by
  intro ι identityScope raw token row friend friend' trustRevision hplain hplain' hminted htrim
    hmatch
  obtain ⟨state, hparse, hmatch⟩ := Option.bind_eq_some_iff.mp hmatch
  obtain ⟨token', hminted', hsame⟩ := Option.map_eq_some_iff.mp hmatch
  have htoken : token' = token := by
    rw [← htrim]
    exact (of_decide_eq_true hsame).symm
  have hstate : state.revision = revision row := by
    classical exact (parseState_eq hparse).1.symm
  rw [htoken] at hminted'
  rw [← hstate]
  exact createPairingApproval_inj hsha hplain hplain' hminted hminted'

end Tokens

section Revocations

variable (ι : Type) [DecidableEq ι]

/-- The revision only grows, and with every change of the pins. -/
def RevisionsGrow : Prop :=
  ∀ (row : Row ι) (calls : Calls ι), revision row ≤ revision (run row calls) ∧
    (Changes row calls → revision row < revision (run row calls))

/-- Work that was begun before a change of the pins comes to nothing. -/
def StaleRefused : Prop :=
  ∀ (row : Row ι) (calls : Calls ι), Changes row calls → ∀ accepts : Bool,
    Refused (run row calls) (markSafetyNumberChanged accepts (run row calls) (revision row)) ∧
      ∀ friend options approvedAt, options.expectedRevision = revision row →
        Refused (run row calls)
          (commitPeerTrust accepts (run row calls) friend options approvedAt)

/-- Trust comes back by a `set` or by a commit at a revision that the row had behind `remove`. -/
def RemovedUntilTrusted : Prop :=
  ∀ (row : Row ι) (accepts : Bool) (calls : Calls ι), (remove accepts row).2 = .ok true →
    (pins (run (remove accepts row).1 calls)).isSome = true →
    ∃ before call after, calls = before ++ call :: after ∧
      (TrustCall.apply call.1 call.2 (run (remove accepts row).1 before)).2 = .ok true ∧
      ((∃ trust, call.1 = .set trust) ∨ ∃ friend options approvedAt,
        call.1 = .commitPeerTrust friend options approvedAt ∧
          options.expectedRevision = revision (run (remove accepts row).1 before) ∧
          revision row < options.expectedRevision)

/-- What ends a request for good: its use, a `remove`, and its withdrawal. -/
def RequestsEnd : Prop :=
  ∀ (row : Row ι) (accepts : Bool) (id : ι),
    (∀ friend options approvedAt, (commitPeerTrust accepts row friend options approvedAt).2 =
      .ok true → Dead (commitPeerTrust accepts row friend options approvedAt).1 id) ∧
    ((remove accepts row).2 = .ok true → Dead (remove accepts row).1 id) ∧
    ∀ (requestId : Option ι) (found : Bool), requestId.all (· = id) = true →
      (removeOutboundRequest accepts row requestId).2 = .ok found →
      Dead (removeOutboundRequest accepts row requestId).1 id

theorem staleRefused : StaleRefused ι := by
  intro row calls hchanges accepts
  have hlt := (revision_run row calls).2 hchanges
  refine ⟨refused_mark hlt.ne, ?_⟩
  intro friend options approvedAt hexpected
  apply refused_commit
  left
  rw [hexpected]
  exact hlt.ne

theorem removedUntilTrusted : RemovedUntilTrusted ι := by
  intro row accepts calls hremove htrusted
  obtain ⟨hpins, hrevision⟩ := pins_remove hremove
  obtain ⟨before, call, after, hcalls, hok, hsource⟩ := trusted_run hpins htrusted
  refine ⟨before, call, after, hcalls, hok, ?_⟩
  rcases hsource with hset | ⟨friend, options, approvedAt, hcall, hexpected⟩
  · exact .inl hset
  · have hle := (revision_run (remove accepts row).1 before).1
    exact .inr ⟨friend, options, approvedAt, hcall, hexpected, by omega⟩

theorem requestsEnd : RequestsEnd ι := by
  intro row accepts id
  refine ⟨?_, ?_, ?_⟩
  · intro friend options approvedAt hok
    exact dead_of_requested (requested_commit hok id)
  · intro hok
    exact dead_of_requested (requested_remove hok id)
  · intro requestId found hid hok
    exact dead_of_requested (requested_removeOutboundRequest hok id hid)

end Revocations

/-- A revocation is never undone by stale work. -/
theorem revocations_last (host : ApprovalHost) (hsha : Function.Injective host.sha256) :
    (∀ (ι : Type) [DecidableEq ι],
      RevisionsGrow ι ∧ StaleRefused ι ∧ RemovedUntilTrusted ι ∧ RequestsEnd ι) ∧
    ApprovalsExact host :=
  ⟨fun ι _ => ⟨revision_run, staleRefused ι, removedUntilTrusted ι, requestsEnd ι⟩,
    approvalsExact hsha⟩

def sampleFriend : RelayFriend where
  peer := ofString "bob"
  ed25519_pub := List.replicate 43 (unit 'A')
  x25519_pub := List.replicate 43 (unit 'B')
  key_epoch := 1

/-- What the token of the sample friend hashes at the revision 0, and its SHA-256 digest. -/
def sampleSigned : Bytes :=
  utf8 (ofString "bob\n1\n0\n" ++ List.replicate 43 (unit 'A') ++ unit '\n' ::
    List.replicate 43 (unit 'B'))

def sampleSignedDigest : Bytes :=
  [181, 96, 110, 104, 57, 176, 45, 245, 0, 212, 189, 76, 182, 237, 143, 181, 74, 147, 190, 81, 164,
    153, 74, 232, 193, 187, 193, 204, 126, 253, 234, 201]

/-- SHA-256 of the sample; other bytes are left as they are, so that none collide. -/
def sampleHost : ApprovalHost where
  sha256 := Equiv.swap sampleSigned sampleSignedDigest
  toLowerCase s := s.map fun c => if inRange 'A' 'Z' c then c + 0x20 else c

/-- The digest of `https://reef.example` and `alice`. -/
def sampleScope : Utf16 :=
  ofString "f529abb1ee7ba7683e46015e77c06cda311a3941253a770675f3908bb025238f"

def sampleToken : Utf16 :=
  ofString "reef-approval-v1:" ++ (sampleScope ++
    ofString ":bob:1:0:b5606e6839b02df500d4bd4cb6ed8fb54a93be51a4994ae8c1bbc1cc7efdeac9")

/-- Calls that pin the keys of the sample friend, at the revision 0 of a row that is not there. -/
def sampleCalls : Calls ℕ :=
  [(.commitPeerTrust sampleFriend { expectedRevision := 0 } 5, true)]

theorem revocations_last_sample :
    (Refused (run none sampleCalls)
      (commitPeerTrust true (run none sampleCalls) sampleFriend { expectedRevision := 0 } 6) ∧
      revision (run none sampleCalls) = 1) ∧
    createPairingApproval sampleHost sampleScope sampleFriend 0 = some sampleToken ∧
    matchesPairingApproval sampleHost sampleScope (run none sampleCalls) sampleToken sampleFriend ≠
      some true := by
  have hinj : Function.Injective sampleHost.sha256 := Equiv.injective _
  obtain ⟨hruns, htokens⟩ := revocations_last sampleHost hinj
  have hplain : PlainKeys sampleFriend := by
    unfold PlainKeys
    decide
  have htoken : createPairingApproval sampleHost sampleScope sampleFriend 0 = some sampleToken := by
    decide +kernel
  have hrevision : revision (run none sampleCalls) = 1 := by decide
  refine ⟨⟨?_, hrevision⟩, htoken, ?_⟩
  · have hchanges : Changes none sampleCalls := ⟨[], _, [], rfl, by decide⟩
    exact ((hruns ℕ).2.1 none sampleCalls hchanges true).2 sampleFriend _ 6 rfl
  · intro hmatch
    have heq := (htokens sampleScope sampleToken sampleToken (run none sampleCalls) sampleFriend
      sampleFriend 0 hplain hplain htoken (by decide +kernel) hmatch).2.2.2.2
    rw [hrevision] at heq
    cases heq

/-- Keys that are none are pinned, and from then on no call gets past the row. -/
theorem stale_commit_throws :
    Changes (none : Row ℕ)
      [(.commitPeerTrust { sampleFriend with ed25519_pub := [] } { expectedRevision := 0 } 5, true)] ∧
    (commitPeerTrust true (run (none : Row ℕ)
      [(.commitPeerTrust { sampleFriend with ed25519_pub := [] } { expectedRevision := 0 } 5, true)])
      sampleFriend { expectedRevision := 0 } 6).2 = .error .invalidRow := by
  refine ⟨⟨[], _, [], rfl, ?_⟩, ?_⟩
  · decide
  · decide

end Flashclaw.Reef.ReefTrustStore
