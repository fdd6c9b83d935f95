/-
# A stream that ends in the middle of a package

`recv` with `MSG_WAITALL` returns fewer bytes than it was asked for when the connection ends, and 0 only when
there was none at all.  `recv_package` tests each of its three receives for `<= 0`, so a count that is positive
and short passes: what was not received is what the destination held before.

Hence it is not enough to know what was sent.  `Uninit` is what the two variables and the block from `malloc`
hold when a call starts, and a statement about a truncated stream is one about every such content.  Where
nothing is missing it plays no part (`recvPackageEof_of_recvPackage`).
-/
import Tpso.Utils.Package

namespace Tpso.Utils

open Tpso.Lib

/-! ## 1. `recv_package` up to the end of the stream -/

/-- What the destinations of the three receives hold before: `opcode`, `buffer_stream_size`, and a block of each
size from `safe_malloc`. -/
structure Uninit where
  opcode : List UInt8
  size : List UInt8
  block : Nat → List UInt8
  opcode_length : opcode.length = 4
  size_length : size.length = 4
  block_length : ∀ n, (block n).length = n

/-- `recv` with `MSG_WAITALL` of as many bytes as the destination has: how many were received, and the
destination after that. -/
def recvWaitall (dest : List UInt8) : Connection (Nat × List UInt8) := fun stream =>
  some ((min dest.length stream.length, stream.take dest.length ++ dest.drop stream.length),
    stream.drop dest.length)

/-- `safe_malloc` of an `int32_t`: a negative one is a huge `size_t`, and the program aborts. -/
def safeMalloc (size : Int32) : Option Unit := if size.toInt < 0 then none else some ()

/-- `recv_package`; its result may be NULL. -/
def recvPackageEof (before : Uninit) : Connection (Option Package) := do
  let (count, opcode) ← recvWaitall before.opcode
  if count = 0 then return none
  let (count, size) ← recvWaitall before.size
  if count = 0 then return none
  let bufferStreamSize := int32OfBytes size
  StateT.lift (safeMalloc bufferStreamSize)
  let (count, data) ← recvWaitall (before.block bufferStreamSize.toInt.toNat)
  if count = 0 then return none
  let buffer ← StateT.lift (bufferCreate bufferStreamSize)
  let (_, buffer) ← StateT.lift ((bufferAdd data bufferStreamSize).run buffer)
  return some ⟨int32OfBytes opcode, buffer⟩

/-! ## 2. The property -/

/-- The package has a payload, and this is what `serialize_package` makes of it. -/
structure Serialises (package : Package) (frame : List UInt8) : Prop where
  sized : package.buffer.streamSize.toInt = package.buffer.stream.length
  nonempty : 0 < package.buffer.stream.length
  frame_eq : serializePackage package = some frame

/-- What a package is on the other side: the same opcode and the same stream, with the cursor at its end. -/
def Package.received (package : Package) : Package := ⟨package.opcode, receivedBuffer package.buffer.stream⟩

/-- **Successive calls return exactly the packages and then NULL**, whatever their destinations held. -/
def EndsInNull (sent : List Package) (stream : List UInt8) : Prop :=
  ∀ before : List Uninit, before.length = sent.length + 1 →
    ∃ rest, (before.mapM recvPackageEof).run stream =
      some (sent.map (fun package => some package.received) ++ [none], rest)

/-! ## 3. One receive -/

section Receive

variable {before : Uninit}

/-- A receive that finds all its bytes does not show what was there before. -/
theorem recvWaitall_of_le {dest stream : List UInt8} (h : dest.length ≤ stream.length) :
    (recvWaitall dest).run stream = some ((dest.length, stream.take dest.length), stream.drop dest.length) := by
  show some _ = some _
  rw [min_eq_left h, List.drop_of_length_le h, List.append_nil]

/-- A receive at the end of the stream. -/
theorem recvWaitall_nil (dest : List UInt8) : (recvWaitall dest).run [] = some ((0, dest), []) := by
  show some _ = some _
  simp

/-- A receive that finds fewer. -/
theorem recvWaitall_of_lt {dest stream : List UInt8} (h : stream.length < dest.length) :
    (recvWaitall dest).run stream = some ((stream.length, stream ++ dest.drop stream.length), []) := by
  show some _ = some _
  rw [min_eq_right h.le, List.take_of_length_le h.le, List.drop_of_length_le h.le]

theorem recvWaitall_reads {dest bytes : List UInt8} (h : dest.length = bytes.length) :
    Reads (· = ·) (recvWaitall dest) bytes (bytes.length, bytes) := by
  rintro s rest rfl
  refine ⟨rest, ?_, rfl⟩
  rw [recvWaitall_of_le (by rw [List.length_append]; omega), h, List.take_left, List.drop_left]

/-- **A whole frame gives its package.** -/
theorem recvPackageEof_reads (before : Uninit) {opcode : Int32} {stream : List UInt8}
    (hshort : Short stream) (hpos : 0 < stream.length) :
    Reads (· = ·) (recvPackageEof before) (framed opcode stream)
      (some ⟨opcode, receivedBuffer stream⟩) := by
  obtain ⟨empty, hcreate, hadd⟩ := bufferAdd_received hshort
  have hsize := toInt_ofNat_of_lt hshort
  have hmalloc : safeMalloc (Int32.ofNat stream.length) = some () := by
    rw [safeMalloc, hsize, if_neg (by omega)]
  unfold recvPackageEof framed
  rw [List.append_assoc]
  refine (recvWaitall_reads (before.opcode_length.trans (length_int32Bytes opcode).symm)).bind ?_
  simp only [length_int32Bytes, OfNat.ofNat_ne_zero, ↓reduceIte]
  refine (recvWaitall_reads (before.size_length.trans (length_int32Bytes _).symm)).bind ?_
  simp only [length_int32Bytes, OfNat.ofNat_ne_zero, ↓reduceIte, int32OfBytes_int32Bytes, hsize,
    Int.toNat_natCast]
  show Reads _ _ ([] ++ stream) _
  refine (Reads.lift hmalloc).bind ?_
  refine (recvWaitall_reads (before.block_length _)).bind_nil ?_
  simp only [if_neg (Nat.ne_of_gt hpos)]
  refine (Reads.lift hcreate).bind_nil ?_
  exact (Reads.lift hadd).bind_nil (Reads.pure _)

/-- What is serialised is a frame, and its stream is short. -/
theorem Serialises.framed_eq {package : Package} {frame : List UInt8} (h : Serialises package frame) :
    frame = framed package.opcode package.buffer.stream ∧ 8 + package.buffer.stream.length < 2 ^ 31 := by
  have hframe := h.frame_eq
  have hlt := Int32.toInt_lt package.buffer.streamSize
  have hsized := h.sized
  simp only [serializePackage, hsized, Int.toNat_natCast] at hframe
  have hfit : 8 + package.buffer.stream.length < 2 ^ 31 := by
    by_contra hlong
    have hneg : (Int32.ofInt (8 + (package.buffer.stream.length : Int))).toInt < 0 := by
      have hsize : (Int32.size : Int) = 2 ^ 32 := rfl
      rw [Int32.toInt_ofInt, Int.bmod_def, hsize]
      split
      · omega
      · omega
    rw [if_pos hneg] at hframe
    exact absurd hframe (by simp)
  rw [Int32.toInt_ofInt_of_le (by omega) (by omega), if_neg (by omega), List.take_length] at hframe
  have hcount : package.buffer.streamSize = Int32.ofNat package.buffer.stream.length := by
    apply Int32.toInt.inj
    rw [hsized, toInt_ofNat_of_lt (by omega)]
  rw [← Option.some.inj hframe, hcount]
  exact ⟨rfl, hfit⟩

/-- **Whole frames give their packages**, one call each. -/
theorem mapM_recvPackageEof {sent : List Package} {frames : List (List UInt8)}
    (h : List.Forall₂ Serialises sent frames) : ∀ (before : List Uninit) (rest : List UInt8),
      before.length = sent.length →
      (before.mapM recvPackageEof).run (frames.flatten ++ rest) =
        some (sent.map fun package => some package.received, rest) := by
  induction h with
  | nil =>
    intro before rest hlen
    obtain rfl := List.eq_nil_of_length_eq_zero hlen
    rfl
  | @cons package frame sent frames hframe hframes ih =>
    intro before rest hlen
    obtain ⟨b, before, rfl⟩ : ∃ b bs, before = b :: bs :=
      List.exists_cons_of_length_eq_add_one hlen
    obtain ⟨rfl, hfit⟩ := hframe.framed_eq
    have hreads : Reads (· = ·) (recvPackageEof b) (framed package.opcode package.buffer.stream)
        (some package.received) :=
      recvPackageEof_reads b (by unfold Short; omega) hframe.nonempty
    obtain ⟨_, hrun, rfl⟩ := hreads _ (frames.flatten ++ rest) rfl
    have htail := ih before rest (Nat.succ.inj hlen)
    rw [List.mapM_cons, List.flatten_cons, List.append_assoc, StateT.run_bind, hrun]
    simp [htail]

/-- **It is the last call that matters.** -/
theorem endsInNull_iff_last {sent : List Package} {frames : List (List UInt8)} {cut : List UInt8}
    (h : List.Forall₂ Serialises sent frames) :
    EndsInNull sent (frames.flatten ++ cut) ↔
      ∀ last, ∃ rest, (recvPackageEof last).run cut = some (none, rest) := by
  constructor
  · intro hnull last
    obtain ⟨rest, hrun⟩ := hnull (List.replicate sent.length last ++ [last]) (by simp)
    rw [List.mapM_append, StateT.run_bind,
      mapM_recvPackageEof h (List.replicate sent.length last) cut (by simp)] at hrun
    cases hlast : (recvPackageEof last).run cut with
    | none => simp [hlast] at hrun
    | some out =>
      obtain ⟨result, rest'⟩ := out
      refine ⟨rest', ?_⟩
      simp [hlast] at hrun
      rw [hrun.1]
  · intro hlast before hlen
    have hne : before ≠ [] := by
      rintro rfl
      simp at hlen
    obtain ⟨rest, hrun⟩ := hlast (before.getLast hne)
    refine ⟨rest, ?_⟩
    have hfirst := mapM_recvPackageEof h before.dropLast cut (by simp [hlen])
    rw [← List.dropLast_append_getLast hne, List.mapM_append, StateT.run_bind, hfirst]
    simp [hrun]

/-! ## 4. Where the stream ends -/

/-- Before the size: the second receive finds nothing. -/
theorem recvPackageEof_opcode (before : Uninit) {cut : List UInt8} (h : cut.length ≤ 4) :
    (recvPackageEof before).run cut = some (none, []) := by
  have hdrop : cut.drop 4 = [] := List.drop_eq_nil_of_le h
  cases cut with
  | nil =>
    unfold recvPackageEof
    simp [StateT.run_bind, recvWaitall_nil]
  | cons b cut =>
    have hrun : ∃ n bytes, (recvWaitall before.opcode).run (b :: cut) = some ((n + 1, bytes), []) := by
      refine ⟨cut.length, (b :: cut).take 4 ++ before.opcode.drop (b :: cut).length, ?_⟩
      show some _ = some _
      rw [before.opcode_length, hdrop, min_eq_right h, List.length_cons]
    obtain ⟨n, bytes, hrun⟩ := hrun
    unfold recvPackageEof
    simp [StateT.run_bind, hrun, recvWaitall_nil]

/-- A size whose highest byte is 255 is negative. -/
theorem toInt_int32OfBytes_neg {bs : List UInt8} (h : bs.length = 3) :
    (int32OfBytes (bs ++ [255])).toInt < 0 := by
  obtain ⟨a, b, c, rfl⟩ := List.length_eq_three.mp h
  have ha := a.toNat_lt
  have hb := b.toNat_lt
  have hc := c.toNat_lt
  have hvalue : leNat ([a, b, c] ++ [255]) = a.toNat + 256 * (b.toNat + 256 * (c.toNat + 256 * 255)) := rfl
  show (BitVec.ofNat 32 (leNat ([a, b, c] ++ [255]))).toInt < 0
  rw [hvalue, BitVec.toInt_ofNat', Int.bmod_def]
  split
  · omega
  · omega

/-- Destinations that hold ones. -/
def Uninit.ones : Uninit where
  opcode := List.replicate 4 255
  size := List.replicate 4 255
  block n := List.replicate n 255
  opcode_length := by simp
  size_length := by simp
  block_length := by simp

/-- **Inside the size**: what the variable held completes it, and if that makes it negative there is no result. -/
theorem recvPackageEof_size {cut : List UInt8} (hlo : 4 < cut.length) (hhi : cut.length < 8) :
    (recvPackageEof Uninit.ones).run cut = none := by
  have hopcode : (recvWaitall Uninit.ones.opcode).run cut = some ((4, cut.take 4), cut.drop 4) :=
    recvWaitall_of_le hlo.le
  have hshort : (cut.drop 4).length < Uninit.ones.size.length := by
    rw [List.length_drop, Uninit.ones.size_length]
    omega
  have hsize := recvWaitall_of_lt hshort
  have hjunk : ∃ bs : List UInt8, bs.length = 3 ∧
      cut.drop 4 ++ Uninit.ones.size.drop (cut.drop 4).length = bs ++ [255] := by
    refine ⟨cut.drop 4 ++ List.replicate (7 - cut.length) 255, ?_, ?_⟩
    · rw [List.length_append, List.length_drop, List.length_replicate]
      omega
    · rw [List.append_assoc, ← List.replicate_succ', Uninit.ones, List.drop_replicate, List.length_drop]
      congr 2
      omega
  obtain ⟨bs, hbs, heq⟩ := hjunk
  have hmalloc : safeMalloc (int32OfBytes (bs ++ [255])) = none := if_pos (toInt_int32OfBytes_neg hbs)
  have hcount : (cut.drop 4).length ≠ 0 := by
    rw [List.length_drop]
    omega
  rw [heq] at hsize
  unfold recvPackageEof
  simp only [StateT.run_bind, hopcode, Option.bind_eq_bind, Option.bind_some, OfNat.ofNat_ne_zero,
    ↓reduceIte, hsize, if_neg hcount]
  simp [hmalloc]

section Payload

variable {stream : List UInt8}

/-- The first two receives, where the header is whole. -/
theorem recvWaitall_header (before : Uninit) (opcode size : Int32) (data : List UInt8) :
    (recvWaitall before.opcode).run (int32Bytes opcode ++ (int32Bytes size ++ data)) =
        some ((4, int32Bytes opcode), int32Bytes size ++ data) ∧
      (recvWaitall before.size).run (int32Bytes size ++ data) = some ((4, int32Bytes size), data) := by
  obtain ⟨_, hopcode, rfl⟩ := recvWaitall_reads
    (before.opcode_length.trans (length_int32Bytes opcode).symm) _ (int32Bytes size ++ data) rfl
  obtain ⟨_, hsize, rfl⟩ := recvWaitall_reads
    (before.size_length.trans (length_int32Bytes size).symm) _ data rfl
  rw [length_int32Bytes] at hopcode hsize
  exact ⟨hopcode, hsize⟩

/-- Behind the size: the third receive finds nothing. -/
theorem recvPackageEof_header (before : Uninit) (opcode : Int32) (hfit : stream.length < 2 ^ 31) :
    (recvPackageEof before).run (int32Bytes opcode ++ (int32Bytes (Int32.ofNat stream.length) ++ [])) =
      some (none, []) := by
  have hmalloc : safeMalloc (Int32.ofNat stream.length) = some () := by
    rw [safeMalloc, toInt_ofNat_of_lt hfit, if_neg (by omega)]
  obtain ⟨hopcode, hsize⟩ := recvWaitall_header before opcode (Int32.ofNat stream.length) []
  unfold recvPackageEof
  simp only [StateT.run_bind, hopcode, hsize, Option.bind_eq_bind, Option.bind_some, OfNat.ofNat_ne_zero,
    ↓reduceIte, int32OfBytes_int32Bytes]
  simp [hmalloc, recvWaitall_nil]

/-- **Inside the payload**: a package comes back. -/
theorem recvPackageEof_payload (before : Uninit) (opcode : Int32) (data : List UInt8)
    (hfit : stream.length < 2 ^ 31) (hpos : 0 < data.length)
    (hlt : data.length < stream.length) :
    ∃ package, (recvPackageEof before).run
      (int32Bytes opcode ++ (int32Bytes (Int32.ofNat stream.length) ++ data)) = some (some package, []) := by
  have hsize32 := toInt_ofNat_of_lt hfit
  have hmalloc : safeMalloc (Int32.ofNat stream.length) = some () := by
    rw [safeMalloc, hsize32, if_neg (by omega)]
  obtain ⟨hopcode, hsize⟩ := recvWaitall_header before opcode (Int32.ofNat stream.length) data
  have hne : data ≠ [] := List.ne_nil_of_length_pos hpos
  -- the block is full, with what it held before at its end
  obtain ⟨block, hblock⟩ : ∃ block, data ++ (before.block stream.length).drop data.length = block := ⟨_, rfl⟩
  have hfull : block.length = stream.length := by
    rw [← hblock, List.length_append, List.length_drop, before.block_length]
    omega
  have hdata : (recvWaitall (before.block stream.length)).run data = some ((data.length, block), []) := by
    rw [← hblock]
    exact recvWaitall_of_lt (by rw [before.block_length]; exact hlt)
  have hshort : Short block := by
    unfold Short
    rw [hfull]
    exact hfit
  obtain ⟨empty, hcreate, hadd⟩ := bufferAdd_received hshort
  rw [hfull] at hcreate hadd
  refine ⟨⟨opcode, receivedBuffer block⟩, ?_⟩
  unfold recvPackageEof
  simp only [StateT.run_bind, hopcode, hsize, Option.bind_eq_bind, Option.bind_some, OfNat.ofNat_ne_zero,
    ↓reduceIte, int32OfBytes_int32Bytes, hsize32, Int.toNat_natCast]
  simp [hmalloc, hdata, hne, hcreate, hadd]

end Payload

end Receive

/-! ## 5. Truncated streams -/

/-- What is left of a frame that is cut behind its header. -/
theorem cut_eq_header {opcode : Int32} {stream cut : List UInt8} (hcut : cut <+: framed opcode stream)
    (hlong : 8 ≤ cut.length) :
    cut = int32Bytes opcode ++ (int32Bytes (Int32.ofNat stream.length) ++ stream.take (cut.length - 8)) := by
  have htake := List.prefix_iff_eq_take.mp hcut
  rw [framed, List.append_assoc, List.take_append, List.take_append, length_int32Bytes, length_int32Bytes,
    List.take_of_length_le (by rw [length_int32Bytes]; omega),
    List.take_of_length_le (by rw [length_int32Bytes]; omega)] at htake
  exact htake

/-- **Truncated streams.**  After the frames of some packages and a proper prefix of one more, the calls return
these packages and then NULL, whatever the destinations held, exactly when the prefix ends in or behind the
opcode or right behind the size. -/
theorem endsInNull_iff {sent : List Package} {frames : List (List UInt8)} {next : Package}
    {frame cut : List UInt8} (hsent : List.Forall₂ Serialises sent frames) (hnext : Serialises next frame)
    (hcut : cut <+: frame) (hne : cut ≠ frame) :
    EndsInNull sent (frames.flatten ++ cut) ↔ cut.length ≤ 4 ∨ cut.length = 8 := by
  obtain ⟨rfl, hfit⟩ := hnext.framed_eq
  have hstream : next.buffer.stream.length < 2 ^ 31 := by omega
  have hproper : cut.length < 8 + next.buffer.stream.length := by
    have hlt := lt_of_le_of_ne hcut.length_le fun heq => hne (hcut.eq_of_length heq)
    simp only [framed, List.length_append, length_int32Bytes] at hlt
    omega
  rw [endsInNull_iff_last hsent]
  constructor
  · intro hnull
    by_contra hcase
    rcases Nat.lt_or_ge cut.length 8 with hsize | hpayload
    · obtain ⟨rest, hrun⟩ := hnull Uninit.ones
      rw [recvPackageEof_size (by omega) hsize] at hrun
      exact absurd hrun (by simp)
    · obtain ⟨rest, hrun⟩ := hnull Uninit.ones
      have hlen : (next.buffer.stream.take (cut.length - 8)).length = cut.length - 8 := by
        rw [List.length_take]
        omega
      obtain ⟨package, hpackage⟩ := recvPackageEof_payload Uninit.ones next.opcode
        (next.buffer.stream.take (cut.length - 8)) hstream (by omega) (by omega)
      rw [← cut_eq_header hcut hpayload, hrun] at hpackage
      simp at hpackage
  · rintro (hopcode | hheader) last
    · exact ⟨[], recvPackageEof_opcode last hopcode⟩
    · have hrun := recvPackageEof_header last next.opcode hstream
      have heq := cut_eq_header hcut (Nat.le_of_eq hheader.symm)
      rw [hheader, Nat.sub_self, List.take_zero] at heq
      rw [← heq] at hrun
      exact ⟨[], hrun⟩

/-- A package with a payload of two bytes. -/
def twoBytes : Package := ⟨Opcode.confirmation.code, receivedBuffer [7, 8]⟩

theorem twoBytes_serialises : Serialises twoBytes (framed Opcode.confirmation.code [7, 8]) :=
  ⟨rfl, by decide, rfl⟩

/-- The theorem at work on a whole package and the header of another. -/
theorem endsInNull_iff_header :
    EndsInNull [twoBytes] ([framed Opcode.confirmation.code [7, 8]].flatten ++
      (framed Opcode.confirmation.code [7, 8]).take 8) :=
  (endsInNull_iff (.cons twoBytes_serialises .nil) twoBytes_serialises (List.take_prefix 8 _) (by decide)).mpr
    (Or.inr rfl)

/-- With one of its two bytes the package is returned. -/
theorem not_endsInNull :
    ¬ ∀ (sent : List Package) (frames : List (List UInt8)) (next : Package) (frame cut : List UInt8),
      List.Forall₂ Serialises sent frames → Serialises next frame → cut <+: frame → cut ≠ frame →
      EndsInNull sent (frames.flatten ++ cut) := by
  intro hall
  have hnull := hall [] [] twoBytes _ ((framed Opcode.confirmation.code [7, 8]).take 9) .nil
    twoBytes_serialises (List.take_prefix 9 _) (by decide)
  obtain ⟨rest, hrun⟩ := hnull [Uninit.ones] rfl
  have hreturned : (([Uninit.ones].mapM recvPackageEof).run
      (([] : List (List UInt8)).flatten ++ (framed Opcode.confirmation.code [7, 8]).take 9)).map
        (fun out => out.1.map Option.isSome) = some [true] := by decide
  rw [hrun] at hreturned
  simp at hreturned

/-! ## 6. Streams with nothing missing -/

/-- A receive of the other modules is one that finds all its bytes, and asks for some. -/
theorem recvWaitall_of_recv {n : Nat} {dest stream bytes rest : List UInt8} (hdest : dest.length = n)
    (h : (recv n).run stream = some (bytes, rest)) :
    n ≠ 0 ∧ (recvWaitall dest).run stream = some ((n, bytes), rest) := by
  have hrecv : (if n = 0 ∨ stream.length < n then none else some (stream.take n, stream.drop n)) =
      some (bytes, rest) := h
  split at hrecv
  · exact absurd hrecv (by simp)
  · rename_i hguard
    obtain ⟨hn, hle⟩ := not_or.mp hguard
    obtain ⟨rfl, rfl⟩ := Prod.mk.inj (Option.some.inj hrecv)
    refine ⟨hn, ?_⟩
    rw [recvWaitall_of_le (by omega), hdest]

/-- **Where no receive falls short, the destinations play no part**, and this is the `recv_package` of the other
modules. -/
theorem recvPackageEof_of_recvPackage (before : Uninit) {stream rest : List UInt8} {package : Package}
    (h : recvPackage.run stream = some (package, rest)) :
    (recvPackageEof before).run stream = some (some package, rest) := by
  simp only [recvPackage, StateT.run_bind, Option.bind_eq_bind, Option.bind_eq_some_iff] at h
  obtain ⟨⟨opcode, s1⟩, hopcode, ⟨size, s2⟩, hsize, ⟨data, s3⟩, hdata, ⟨empty, s4⟩, hcreate,
    ⟨⟨_, buffer⟩, s5⟩, hadd, hpure⟩ := h
  obtain ⟨-, hopcode'⟩ := recvWaitall_of_recv before.opcode_length hopcode
  obtain ⟨-, hsize'⟩ := recvWaitall_of_recv before.size_length hsize
  obtain ⟨hcount, hdata'⟩ := recvWaitall_of_recv (before.block_length _) hdata
  have hmalloc : safeMalloc (int32OfBytes size) = some () := by
    refine if_neg ?_
    simp only at hcount
    omega
  unfold recvPackageEof
  simp only [StateT.run_bind, hopcode', hsize', Option.bind_eq_bind, Option.bind_some,
    OfNat.ofNat_ne_zero, ↓reduceIte, StateT.run_lift, hmalloc, Option.pure_def, hdata', hcount, hcreate]
  rw [StateT.run_lift, Option.bind_eq_bind] at hadd
  simp only [Option.pure_def] at hadd
  rw [hadd, Option.bind_some]
  obtain ⟨rfl, rfl⟩ := Prod.mk.inj (Option.some.inj hpure)
  rfl

end Tpso.Utils
