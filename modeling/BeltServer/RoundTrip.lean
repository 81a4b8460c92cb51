import BeltServer.Layout

/-!
# Round trips over the wire

A field of a packed struct is read, and overwritten, at the sum of the widths before it. So the
literal offsets of the client are those of the structs, message by message.
-/

namespace BeltServer

set_option autoImplicit false

open LittleEndian LengthPrefix BeltProto

/-! ### Access to one field -/

section Access
variable {fs : List Field} {off n : Nat}

theorem getUint_pack (pre post : List Field) (f : Field) (hfs : fs = pre ++ f :: post)
    (hoff : size pre = off) (hn : f.width = n) : getUint (pack fs) off n = some f.num := by
  subst hfs hoff hn
  rw [getUint, if_pos (size_add_width_le pre post f), slice_pack, Field.value_bytes]

theorem getInt_pack (pre post : List Field) (f : Field) (hfs : fs = pre ++ f :: post)
    (hoff : size pre = off) (hn : f.width = n) :
    getInt (pack fs) off n = some (signed (8 * n) f.num) := by
  rw [getInt, getUint_pack pre post f hfs hoff hn]
  rfl

theorem setInt_pack (pre post : List Field) (f : Field) (v : Int) (hfs : fs = pre ++ f :: post)
    (hoff : size pre = off) (hn : f.width = n) :
    setInt (pack fs) off n v = some (pack (pre ++ Field.ofInt n v :: post)) := by
  subst hfs hoff hn
  have hsplice := splice_pack pre post f (Field.ofInt f.width v) rfl
  rw [setInt, if_pos (size_add_width_le pre post f)]
  exact congrArg some hsplice

theorem leNat_eq_value (bs : List UInt8) : leNat bs = value bs := by
  induction bs with
  | nil => rfl
  | cons b bs ih => rw [leNat, ih, value]

theorem leNat_pack (pre post : List Field) (f : Field) (hfs : fs = pre ++ f :: post)
    (hoff : size pre = off) (hn : f.width = n) : leNat (bytesAt (pack fs) off n) = f.num := by
  subst hfs hoff hn
  rw [leNat_eq_value, bytesAt, slice_pack, Field.value_bytes]

theorem getD_pack (pre post : List Field) (f : Field) (hfs : fs = pre ++ f :: post)
    (hoff : size pre = off) (hn : f.width = 1) :
    (pack fs).getD off 0 = UInt8.ofNat f.num := by
  subst hfs hoff
  have hslice := slice_pack pre post f
  rw [Field.bytes, hn] at hslice
  have hhead := congrArg List.head? hslice
  rw [List.head?_take, if_neg (by decide), List.head?_drop] at hhead
  rw [List.getD_eq_getElem?_getD, hhead]
  rfl

end Access

/-- A struct whose first field is its size is a frame. -/
theorem whole_pack {f : Field} {fs : List Field} (hw : f.width = 2) (hsize : f.num = 2 + size fs)
    (hlo : 2 ≤ size fs) (hhi : size fs ≤ 1022) : frameFormat.Whole (pack (f :: fs)) := by
  have hlen : (pack (f :: fs)).length = 2 + size fs := by rw [length_pack, size_cons, hw]
  have hhead : leNat (bytesAt (pack (f :: fs)) 0 2) = f.num := leNat_pack [] fs f rfl rfl hw
  refine ⟨?_, ?_, ?_⟩
  · exact (hhead.trans hsize).trans hlen.symm
  · rw [hlen]
    exact Nat.add_le_add_left hlo 2
  · rw [hlen]
    exact Nat.add_le_add_left hhi 2

/-! ### From the server to the client -/

/-- The fields of a struct as numbers of the page. -/
def SnapActor.decoded (a : SnapActor) : Actor where
  id := a.id.toNat
  kind := a.kind.toNat
  state := a.state.toNat
  face := a.face.toInt
  x := a.qx.toNat / 32
  y := a.qy.toNat / 32
  hp := a.hp.toInt

def ServerMsg.decoded : ServerMsg → Decoded
  | .joinOk actorId roomId serverTick => .joinOk actorId.toNat roomId.toNat serverTick.toNat
  | .joinFail reason => .joinFail reason.toNat
  | .roomEvent kind actorId roomId spawnQX spawnQY =>
    .roomEvent kind.toNat actorId.toNat roomId.toNat spawnQX.toNat spawnQY.toNat
  | .snapshot serverTick actorCount lastInputSeq actors =>
    .snapshot serverTick.toNat actorCount.toNat
      ((List.finRange 4).map fun i => (lastInputSeq i).toNat)
      ((List.finRange 14).map fun i => (actors i).decoded)
  | .pong clientTimeUs serverTick tickRemainUs =>
    .pong clientTimeUs.toInt serverTick.toNat tickRemainUs.toNat

theorem getUint_type (m : ServerMsg) : getUint m.bytes 2 2 = some m.type.toNat :=
  getUint_pack [u16 (UInt16.ofNat m.sizeof)] m.body (u16 m.type) rfl rfl rfl

section Decode

theorem decode_joinOk (actorId : UInt8) (roomId serverTick : UInt32) :
    decode (ServerMsg.joinOk actorId roomId serverTick).bytes =
      some (ServerMsg.joinOk actorId roomId serverTick).decoded := by
  have htype := getUint_type (.joinOk actorId roomId serverTick)
  have hactor : getUint (ServerMsg.joinOk actorId roomId serverTick).bytes 4 1 =
      some actorId.toNat := getUint_pack [_, _] [u32 roomId, u32 serverTick] _ rfl rfl rfl
  have hroom : getUint (ServerMsg.joinOk actorId roomId serverTick).bytes 5 4 =
      some roomId.toNat := getUint_pack [_, _, u8 actorId] [u32 serverTick] _ rfl rfl rfl
  have htick : getUint (ServerMsg.joinOk actorId roomId serverTick).bytes 9 4 =
      some serverTick.toNat := getUint_pack [_, _, u8 actorId, u32 roomId] [] _ rfl rfl rfl
  simp only [decode, htype, hactor, hroom, htick]
  rfl

theorem decode_joinFail (reason : UInt8) : decode (ServerMsg.joinFail reason).bytes =
    some (ServerMsg.joinFail reason).decoded := by
  have htype := getUint_type (.joinFail reason)
  have hreason : getUint (ServerMsg.joinFail reason).bytes 4 1 = some reason.toNat :=
    getUint_pack [_, _] [] _ rfl rfl rfl
  simp only [decode, htype, hreason]
  rfl

theorem decode_pong (clientTimeUs : Int64) (serverTick tickRemainUs : UInt32) :
    decode (ServerMsg.pong clientTimeUs serverTick tickRemainUs).bytes =
      some (ServerMsg.pong clientTimeUs serverTick tickRemainUs).decoded := by
  have htype := getUint_type (.pong clientTimeUs serverTick tickRemainUs)
  have htime : getInt (ServerMsg.pong clientTimeUs serverTick tickRemainUs).bytes 4 8 =
      some (signed 64 clientTimeUs.toBitVec.toNat) :=
    getInt_pack [_, _] [u32 serverTick, u32 tickRemainUs] (i64 clientTimeUs) rfl rfl rfl
  have htick : getUint (ServerMsg.pong clientTimeUs serverTick tickRemainUs).bytes 12 4 =
      some serverTick.toNat :=
    getUint_pack [_, _, i64 clientTimeUs] [u32 tickRemainUs] _ rfl rfl rfl
  have hremain : getUint (ServerMsg.pong clientTimeUs serverTick tickRemainUs).bytes 16 4 =
      some tickRemainUs.toNat :=
    getUint_pack [_, _, i64 clientTimeUs, u32 serverTick] [] _ rfl rfl rfl
  rw [← toInt_eq_signed] at htime
  simp only [decode, htype, htime, htick, hremain]
  rfl

theorem decode_roomEvent (kind actorId : UInt8) (roomId : UInt32) (spawnQX spawnQY : UInt16) :
    decode (ServerMsg.roomEvent kind actorId roomId spawnQX spawnQY).bytes =
      some (ServerMsg.roomEvent kind actorId roomId spawnQX spawnQY).decoded := by
  have htype := getUint_type (.roomEvent kind actorId roomId spawnQX spawnQY)
  have hkind : getUint (ServerMsg.roomEvent kind actorId roomId spawnQX spawnQY).bytes 4 1 =
      some kind.toNat :=
    getUint_pack [_, _] [u8 actorId, u32 roomId, u16 spawnQX, u16 spawnQY] _ rfl rfl rfl
  have hactor : getUint (ServerMsg.roomEvent kind actorId roomId spawnQX spawnQY).bytes 5 1 =
      some actorId.toNat :=
    getUint_pack [_, _, u8 kind] [u32 roomId, u16 spawnQX, u16 spawnQY] _ rfl rfl rfl
  have hroom : getUint (ServerMsg.roomEvent kind actorId roomId spawnQX spawnQY).bytes 6 4 =
      some roomId.toNat :=
    getUint_pack [_, _, u8 kind, u8 actorId] [u16 spawnQX, u16 spawnQY] _ rfl rfl rfl
  have hx : getUint (ServerMsg.roomEvent kind actorId roomId spawnQX spawnQY).bytes 10 2 =
      some spawnQX.toNat :=
    getUint_pack [_, _, u8 kind, u8 actorId, u32 roomId] [u16 spawnQY] _ rfl rfl rfl
  have hy : getUint (ServerMsg.roomEvent kind actorId roomId spawnQX spawnQY).bytes 12 2 =
      some spawnQY.toNat :=
    getUint_pack [_, _, u8 kind, u8 actorId, u32 roomId, u16 spawnQX] [] _ rfl rfl rfl
  simp only [decode, htype, hkind, hactor, hroom, hx, hy]
  rfl

/-- One actor, wherever its record stands. -/
theorem decodeActor_pack (pre post : List Field) (a : SnapActor) {fs : List Field} {off : Nat}
    (hfs : fs = pre ++ (a.fields ++ post)) (hoff : size pre = off) :
    decodeActor (pack fs) off = some a.decoded := by
  subst hfs hoff
  obtain ⟨d, hd⟩ : ∃ d, d = pack (pre ++ (a.fields ++ post)) := ⟨_, rfl⟩
  -- the fields of the record are at their own offsets behind the fields in front of it
  have hsplit {before after : List Field} {f : Field} (h : a.fields = before ++ f :: after) :
      pre ++ (a.fields ++ post) = (pre ++ before) ++ f :: (after ++ post) := by
    rw [h, List.append_assoc, List.append_assoc, List.cons_append]
  have hget (before after : List Field) (f : Field) (h : a.fields = before ++ f :: after) :
      getUint d (size pre + size before) f.width = some f.num := by
    rw [hd]
    exact getUint_pack _ _ f (hsplit h) (size_append ..) rfl
  have hint (before after : List Field) (f : Field) (h : a.fields = before ++ f :: after) :
      getInt d (size pre + size before) f.width = some (signed (8 * f.width) f.num) := by
    rw [hd]
    exact getInt_pack _ _ f (hsplit h) (size_append ..) rfl
  have hid : getUint d (size pre) 1 = some a.id.toNat := hget [] _ (u8 a.id) rfl
  have hkind : getUint d (size pre + 1) 1 = some a.kind.toNat := hget [u8 a.id] _ (u8 a.kind) rfl
  have hstate : getUint d (size pre + 2) 1 = some a.state.toNat :=
    hget [u8 a.id, u8 a.kind] _ (u8 a.state) rfl
  have hface : getInt d (size pre + 3) 1 = some a.face.toInt :=
    (hint [u8 a.id, u8 a.kind, u8 a.state] _ (i8 a.face) rfl).trans
      (congrArg some (toInt_eq_signed a.face.toBitVec).symm)
  have hx : getUint d (size pre + 4) 2 = some a.qx.toNat :=
    hget [u8 a.id, u8 a.kind, u8 a.state, i8 a.face] _ (u16 a.qx) rfl
  have hy : getUint d (size pre + 6) 2 = some a.qy.toNat :=
    hget [u8 a.id, u8 a.kind, u8 a.state, i8 a.face, u16 a.qx] _ (u16 a.qy) rfl
  have hhp : getInt d (size pre + 8) 2 = some a.hp.toInt :=
    (hint [u8 a.id, u8 a.kind, u8 a.state, i8 a.face, u16 a.qx, u16 a.qy] _ (i16 a.hp) rfl).trans
      (congrArg some (toInt_eq_signed a.hp.toBitVec).symm)
  rw [← hd]
  simp only [decodeActor, hid, hkind, hstate, hface, hx, hy, hhp]
  rfl

theorem mapM_range {α : Type} {n : Nat} {f : Nat → Option α} {g : Fin n → α}
    (h : ∀ i : Fin n, f i = some (g i)) :
    (List.range n).mapM f = some ((List.finRange n).map g) := by
  have hmap (l : List (Fin n)) : (l.map Fin.val).mapM f = some (l.map g) := by
    induction l with
    | nil => rfl
    | cons i l ih =>
      rw [List.map_cons, List.mapM_cons, h i, ih]
      rfl
  rw [← List.map_coe_finRange_eq_range]
  exact hmap _

theorem decode_snapshot (serverTick : UInt32) (actorCount : UInt8) (lastInputSeq : Seat → UInt32)
    (actors : Slot → SnapActor) :
    decode (ServerMsg.snapshot serverTick actorCount lastInputSeq actors).bytes =
      some (ServerMsg.snapshot serverTick actorCount lastInputSeq actors).decoded := by
  obtain ⟨m, hm⟩ : ∃ m, m = ServerMsg.snapshot serverTick actorCount lastInputSeq actors :=
    ⟨_, rfl⟩
  let front := [u16 (UInt16.ofNat m.sizeof), u16 m.type, u32 serverTick, u8 actorCount]
  let seqs := (List.finRange 4).flatMap fun i => [u32 (lastInputSeq i)]
  let records := (List.finRange 14).flatMap fun i => (actors i).fields
  have hbytes : m.bytes = pack (front ++ (seqs ++ records)) := by
    have hbody : m.body = [u32 serverTick, u8 actorCount] ++ (seqs ++ records) := by
      rw [hm, ServerMsg.body, List.append_assoc]
    rw [ServerMsg.bytes, ServerMsg.fields, hbody]
    rfl
  have htype : getUint m.bytes 2 2 = some MSG_S2C_SNAPSHOT := by
    have hconst : m.type.toNat = MSG_S2C_SNAPSHOT := by
      rw [hm]
      rfl
    rw [getUint_type, hconst]
  have htick : getUint m.bytes 4 4 = some serverTick.toNat := by
    rw [hbytes]
    exact getUint_pack [_, _] _ (u32 serverTick) rfl rfl rfl
  have hcount : getUint m.bytes 8 1 = some actorCount.toNat := by
    rw [hbytes]
    exact getUint_pack [_, _, u32 serverTick] _ (u8 actorCount) rfl rfl rfl
  have hseqs : (List.range 4).mapM (fun i => getUint m.bytes (9 + i * 4) 4) =
      some ((List.finRange 4).map fun i => (lastInputSeq i).toNat) := by
    apply mapM_range
    intro i
    obtain ⟨pre, post, harray, hsize⟩ :=
      exists_record (w := 4) (fun i => [u32 (lastInputSeq i)]) (fun _ => rfl) i
    rw [hbytes]
    apply getUint_pack (front ++ pre) (post ++ records) (u32 (lastInputSeq i))
    · have hseqs : seqs = pre ++ ([u32 (lastInputSeq i)] ++ post) := harray
      rw [hseqs, List.append_assoc, List.append_assoc, List.append_assoc]
      rfl
    · rw [size_append, hsize]
      rfl
    · rfl
  have hactors : (List.range SNAP_ACTORS).mapM (fun i => decodeActor m.bytes (9 + 16 + i * 10)) =
      some ((List.finRange 14).map fun i => (actors i).decoded) := by
    apply mapM_range
    intro i
    obtain ⟨pre, post, harray, hsize⟩ :=
      exists_record (w := 10) (fun i => (actors i).fields) (fun _ => rfl) i
    rw [hbytes]
    apply decodeActor_pack (front ++ seqs ++ pre) post (actors i)
    · have hrecords : records = pre ++ ((actors i).fields ++ post) := harray
      rw [hrecords, List.append_assoc, List.append_assoc]
    · rw [size_append, size_append, hsize]
      rfl
  rw [← hm]
  simp only [decode, htype, htick, hcount, hseqs, hactors]
  rw [hm]
  rfl

/-- What the client decodes are the fields of the struct. -/
theorem decode_bytes (m : ServerMsg) : decode m.bytes = some m.decoded := by
  cases m with
  | joinOk actorId roomId serverTick => exact decode_joinOk actorId roomId serverTick
  | joinFail reason => exact decode_joinFail reason
  | roomEvent kind actorId roomId spawnQX spawnQY =>
    exact decode_roomEvent kind actorId roomId spawnQX spawnQY
  | snapshot serverTick actorCount lastInputSeq actors =>
    exact decode_snapshot serverTick actorCount lastInputSeq actors
  | pong clientTimeUs serverTick tickRemainUs =>
    exact decode_pong clientTimeUs serverTick tickRemainUs

theorem SnapActor.decoded_injective : Function.Injective SnapActor.decoded := by
  rintro ⟨id, kind, state, face, qx, qy, hp⟩ ⟨id', kind', state', face', qx', qy', hp'⟩ h
  simp only [SnapActor.decoded, Actor.mk.injEq] at h
  obtain ⟨hid, hkind, hstate, hface, hx, hy, hhp⟩ := h
  have hqx : qx.toNat = qx'.toNat := by
    have := (div_left_inj' (by norm_num : (32 : ℚ) ≠ 0)).mp hx
    exact_mod_cast this
  have hqy : qy.toNat = qy'.toNat := by
    have := (div_left_inj' (by norm_num : (32 : ℚ) ≠ 0)).mp hy
    exact_mod_cast this
  rw [UInt8.toNat_inj.mp hid, UInt8.toNat_inj.mp hkind, UInt8.toNat_inj.mp hstate,
    Int8.toInt_inj.mp hface, UInt16.toNat_inj.mp hqx, UInt16.toNat_inj.mp hqy,
    Int16.toInt_inj.mp hhp]

theorem ServerMsg.decoded_injective : Function.Injective ServerMsg.decoded := by
  intro m m' h
  cases m <;> cases m' <;> simp only [ServerMsg.decoded, reduceCtorEq] at h
  case joinOk.joinOk =>
    obtain ⟨ha, hr, ht⟩ := Decoded.joinOk.inj h
    rw [UInt8.toNat_inj.mp ha, UInt32.toNat_inj.mp hr, UInt32.toNat_inj.mp ht]
  case joinFail.joinFail => rw [UInt8.toNat_inj.mp (Decoded.joinFail.inj h)]
  case roomEvent.roomEvent =>
    obtain ⟨hk, ha, hr, hx, hy⟩ := Decoded.roomEvent.inj h
    rw [UInt8.toNat_inj.mp hk, UInt8.toNat_inj.mp ha, UInt32.toNat_inj.mp hr,
      UInt16.toNat_inj.mp hx, UInt16.toNat_inj.mp hy]
  case snapshot.snapshot =>
    obtain ⟨ht, hc, hs, ha⟩ := Decoded.snapshot.inj h
    have hseqs := fun i => List.map_inj_left.mp hs i (List.mem_finRange i)
    have hactors := fun i => List.map_inj_left.mp ha i (List.mem_finRange i)
    rw [UInt32.toNat_inj.mp ht, UInt8.toNat_inj.mp hc,
      funext fun i => UInt32.toNat_inj.mp (hseqs i),
      funext fun i => SnapActor.decoded_injective (hactors i)]
  case pong.pong =>
    obtain ⟨hc, ht, hr⟩ := Decoded.pong.inj h
    rw [Int64.toInt_inj.mp hc, UInt32.toNat_inj.mp ht, UInt32.toNat_inj.mp hr]

end Decode

theorem ServerMsg.bytes_injective : Function.Injective ServerMsg.bytes := by
  intro m m' h
  have hdecode := (decode_bytes m).symm.trans ((congrArg decode h).trans (decode_bytes m'))
  exact ServerMsg.decoded_injective (Option.some.inj hdecode)

/-! ### From the client to the server -/

def BeltProto.Call.fields : Call → List Field
  | .join => [.ofInt 2 6, .ofInt 2 10, .ofInt 2 1]
  | .input seq mx my attack skill =>
    [.ofInt 2 12, .ofInt 2 11, .ofInt 4 (seq % 2 ^ 32), .ofInt 1 mx, .ofInt 1 my,
      .ofInt 1 (if attack then 1 else 0), .ofInt 1 (if skill then 1 else 0)]
  | .ping timeUs => [.ofInt 2 12, .ofInt 2 12, .ofInt 8 timeUs]

/-- A setter followed by the rest of an encoder. -/
theorem bind_setInt (pre post : List Field) (f : Field) {fs : List Field} {off n : Nat} {v : Int}
    {k : List UInt8 → Option (List UInt8)} {r : Option (List UInt8)} (hfs : fs = pre ++ f :: post)
    (hoff : size pre = off) (hn : f.width = n) (h : k (pack (pre ++ .ofInt n v :: post)) = r) :
    (setInt (pack fs) off n v).bind k = r := by
  rw [setInt_pack pre post f v hfs hoff hn, Option.bind_some]
  exact h

theorem mkHeader_pack {n type : Nat} (rest : List Field)
    (h : List.replicate n 0 = pack (.ofInt 2 0 :: .ofInt 2 0 :: rest)) :
    mkHeader n type = some (pack (.ofInt 2 n :: .ofInt 2 type :: rest)) := by
  rw [mkHeader, h]
  apply bind_setInt [] _ (.ofInt 2 0) rfl rfl rfl
  exact setInt_pack [_] _ (.ofInt 2 0) type rfl rfl rfl

/-- The setters of `enc` write the frame field by field. -/
theorem enc_eq (c : Call) : enc c = some (pack c.fields) := by
  cases c with
  | join =>
    have hheader : mkHeader 6 MSG_C2S_JOIN = _ := mkHeader_pack [.ofInt 2 0] (by decide)
    rw [enc, hheader, Option.bind_eq_bind, Option.bind_some]
    exact setInt_pack [_, _] _ (.ofInt 2 0) 1 rfl rfl rfl
  | input seq mx my attack skill =>
    have hheader : mkHeader 12 MSG_C2S_INPUT = _ := mkHeader_pack
      [.ofInt 4 0, .ofInt 1 0, .ofInt 1 0, .ofInt 1 0, .ofInt 1 0] (by decide)
    simp only [enc, hheader, Option.bind_eq_bind, Option.bind_some]
    apply bind_setInt [_, _] _ (.ofInt 4 0) rfl rfl rfl
    apply bind_setInt [_, _, .ofInt 4 (seq % 2 ^ 32)] _ (.ofInt 1 0) rfl rfl rfl
    apply bind_setInt [_, _, .ofInt 4 (seq % 2 ^ 32), .ofInt 1 mx] _ (.ofInt 1 0) rfl rfl rfl
    apply bind_setInt [_, _, .ofInt 4 (seq % 2 ^ 32), .ofInt 1 mx, .ofInt 1 my] _ (.ofInt 1 0)
      rfl rfl rfl
    exact setInt_pack [_, _, .ofInt 4 (seq % 2 ^ 32), .ofInt 1 mx, .ofInt 1 my, _] _ (.ofInt 1 0)
      (if skill then 1 else 0) rfl rfl rfl
  | ping timeUs =>
    have hheader : mkHeader 12 MSG_C2S_PING = _ := mkHeader_pack [.ofInt 8 0] (by decide)
    rw [enc, hheader, Option.bind_eq_bind, Option.bind_some]
    exact setInt_pack [_, _] _ (.ofInt 8 0) timeUs rfl rfl rfl

theorem whole_fields (c : Call) : frameFormat.Whole (pack c.fields) := by
  cases c with
  | join => exact whole_pack rfl rfl (by decide) (by decide)
  | input seq mx my attack skill =>
    have hsize : size (Call.input seq mx my attack skill).fields = 12 := rfl
    exact whole_pack rfl rfl (Nat.le_of_ble_eq_true rfl) (Nat.le_of_ble_eq_true rfl)
  | ping timeUs => exact whole_pack rfl rfl (Nat.le_of_ble_eq_true rfl) (Nat.le_of_ble_eq_true rfl)

/-- The numbers that the packed structs can hold. -/
def BeltProto.Call.InRange : Call → Prop
  | .join => True
  | .input _ mx my _ _ => (-128 ≤ mx ∧ mx ≤ 127) ∧ -128 ≤ my ∧ my ≤ 127
  | .ping timeUs => -2 ^ 63 ≤ timeUs ∧ timeUs < 2 ^ 63

/-- A frame as `Dispatch` reads it carries the arguments of the call. -/
def BeltProto.Call.Means : Call → ClientMsg → Prop
  | .join, m => m = .join kProtocolVersion
  | .input seq mx my attack skill, m => ∃ s x y,
    m = .input s x y (if attack then 1 else 0) (if skill then 1 else 0) ∧
      (s.toNat : Int) = seq % 2 ^ 32 ∧ x.toInt = mx ∧ y.toInt = my
  | .ping timeUs, m => ∃ u, m = .ping u ∧ u.toInt64.toInt = timeUs

theorem toInt8_ofInt {v : Int} (hlo : -128 ≤ v) (hhi : v ≤ 127) :
    (UInt8.ofNat (Field.ofInt 1 v).num).toInt8.toInt = v := by
  have hint : (UInt8.ofNat (Field.ofInt 1 v).num).toInt8.toInt =
      signed 8 ((v % 256).toNat % 256) := toInt_eq_signed _
  rw [hint, signed]
  split <;> omega

theorem toInt64_ofInt {v : Int} (hlo : -2 ^ 63 ≤ v) (hhi : v < 2 ^ 63) :
    (UInt64.ofNat (Field.ofInt 8 v).num).toInt64.toInt = v := by
  have hint : (UInt64.ofNat (Field.ofInt 8 v).num).toInt64.toInt =
      signed 64 ((v % 2 ^ 64).toNat % 2 ^ 64) := toInt_eq_signed _
  rw [hint, signed]
  split <;> omega

theorem decode_fields (c : Call) (h : c.InRange) : c.Means (ClientMsg.decode (pack c.fields)) := by
  cases c with
  | join =>
    have hread : ClientMsg.decode (pack Call.join.fields) = .join kProtocolVersion := by decide
    exact hread
  | input seq mx my attack skill =>
    obtain ⟨d, hd⟩ : ∃ d, d = pack (Call.input seq mx my attack skill).fields := ⟨_, rfl⟩
    have htype : leNat (bytesAt d 2 2) = 11 := by
      rw [hd]
      exact leNat_pack [_] _ (.ofInt 2 11) rfl rfl rfl
    have hseq : leNat (bytesAt d 4 4) = (Field.ofInt 4 (seq % 2 ^ 32)).num := by
      rw [hd]
      exact leNat_pack [_, _] _ (.ofInt 4 (seq % 2 ^ 32)) rfl rfl rfl
    have hmx : d.getD 8 0 = UInt8.ofNat (Field.ofInt 1 mx).num := by
      rw [hd]
      exact getD_pack [_, _, .ofInt 4 (seq % 2 ^ 32)] _ (.ofInt 1 mx) rfl rfl rfl
    have hmy : d.getD 9 0 = UInt8.ofNat (Field.ofInt 1 my).num := by
      rw [hd]
      exact getD_pack [_, _, .ofInt 4 (seq % 2 ^ 32), .ofInt 1 mx] _ (.ofInt 1 my) rfl rfl rfl
    have hattack : d.getD 10 0 = if attack then 1 else 0 := by
      have hbyte : d.getD 10 0 = UInt8.ofNat (Field.ofInt 1 (if attack then 1 else 0)).num := by
        rw [hd]
        exact getD_pack [_, _, .ofInt 4 (seq % 2 ^ 32), .ofInt 1 mx, .ofInt 1 my] _
          (.ofInt 1 (if attack then 1 else 0)) rfl rfl rfl
      rw [hbyte]
      cases attack <;> rfl
    have hskill : d.getD 11 0 = if skill then 1 else 0 := by
      have hbyte : d.getD 11 0 = UInt8.ofNat (Field.ofInt 1 (if skill then 1 else 0)).num := by
        rw [hd]
        exact getD_pack [_, _, .ofInt 4 (seq % 2 ^ 32), .ofInt 1 mx, .ofInt 1 my,
          .ofInt 1 (if attack then 1 else 0)] _ (.ofInt 1 (if skill then 1 else 0)) rfl rfl rfl
      rw [hbyte]
      cases skill <;> rfl
    have hlen : d.length = 12 := by
      rw [hd]
      exact length_pack _
    rw [← hd]
    refine ⟨UInt32.ofNat (Field.ofInt 4 (seq % 2 ^ 32)).num, _, _, ?_, ?_,
      toInt8_ofInt h.1.1 h.1.2, toInt8_ofInt h.2.1 h.2.2⟩
    · simp only [ClientMsg.decode, htype, hseq, hmx, hmy, hattack, hskill, hlen]
      rfl
    · have hnum : (UInt32.ofNat (Field.ofInt 4 (seq % 2 ^ 32)).num).toNat =
          (seq % 2 ^ 32 % 2 ^ 32).toNat % 2 ^ 32 := rfl
      rw [hnum]
      omega
  | ping timeUs =>
    have htype : leNat (bytesAt (pack (Call.ping timeUs).fields) 2 2) = 12 :=
      leNat_pack [_] [_] (.ofInt 2 12) rfl rfl rfl
    have htime : leNat (bytesAt (pack (Call.ping timeUs).fields) 4 8) = _ :=
      leNat_pack [_, _] [] (.ofInt 8 timeUs) rfl rfl rfl
    have hlen : (pack (Call.ping timeUs).fields).length = 12 := length_pack _
    refine ⟨UInt64.ofNat (Field.ofInt 8 timeUs).num, ?_, toInt64_ofInt h.1 h.2⟩
    simp only [ClientMsg.decode, htype, htime, hlen]
    rfl

/-- With `seq` in range too, a call is determined by what its frame means. -/
def BeltProto.Call.Canonical : Call → Prop
  | .input seq mx my attack skill =>
    (Call.input seq mx my attack skill).InRange ∧ 0 ≤ seq ∧ seq < 2 ^ 32
  | c => c.InRange

theorem BeltProto.Call.Canonical.inRange {c : Call} (h : c.Canonical) : c.InRange := by
  cases c with
  | join => trivial
  | input seq mx my attack skill => exact h.1
  | ping timeUs => exact h

theorem means_injective {c c' : Call} {m : ClientMsg} (hc : c.Canonical) (hc' : c'.Canonical)
    (h : c.Means m) (h' : c'.Means m) : c = c' := by
  have hbit (a b : Bool) (hab : (if a then (1 : UInt8) else 0) = if b then 1 else 0) : a = b := by
    cases a with
    | false =>
      cases b with
      | false => rfl
      | true => exact absurd hab (by decide)
    | true =>
      cases b with
      | false => exact absurd hab (by decide)
      | true => rfl
  cases c with
  | join =>
    cases h
    cases c' with
    | join => rfl
    | input seq mx my attack skill =>
      obtain ⟨s, x, y, hm, -⟩ := h'
      cases hm
    | ping timeUs =>
      obtain ⟨u, hm, -⟩ := h'
      cases hm
  | input seq mx my attack skill =>
    obtain ⟨s, x, y, rfl, hs, hx, hy⟩ := h
    cases c' with
    | join => cases h'
    | input seq' mx' my' attack' skill' =>
      obtain ⟨s', x', y', hm, hs', hx', hy'⟩ := h'
      obtain ⟨rfl, rfl, rfl, hattack, hskill⟩ := ClientMsg.input.inj hm
      have hseq : seq = seq' := by
        obtain ⟨-, hlo, hhi⟩ := hc
        obtain ⟨-, hlo', hhi'⟩ := hc'
        omega
      rw [hseq, ← hx, ← hx', ← hy, ← hy', hbit _ _ hattack, hbit _ _ hskill]
    | ping timeUs =>
      obtain ⟨u, hm, -⟩ := h'
      cases hm
  | ping timeUs =>
    obtain ⟨u, rfl, hu⟩ := h
    cases c' with
    | join => cases h'
    | input seq mx my attack skill =>
      obtain ⟨s, x, y, hm, -⟩ := h'
      cases hm
    | ping timeUs' =>
      obtain ⟨u', hm, hu'⟩ := h'
      rw [← hu, ← hu', ClientMsg.ping.inj hm]

/-! ### Both directions -/

/-- The frames of the client are single frames for `ParseFrames` and mean to `Dispatch` what was
asked for; the client decodes the fields of every struct of the server; and different messages
have different bytes. -/
theorem wire_format :
    (∀ c : Call, c.InRange → ∃ f, enc c = some f ∧ frameFormat.split f = ⟨[f], [], false⟩ ∧
      c.Means (ClientMsg.decode f)) ∧
    (∀ m : ServerMsg, decode m.bytes = some m.decoded) ∧
    (∀ c c' : Call, c.Canonical → c'.Canonical → enc c = enc c' → c = c') ∧
    Function.Injective ServerMsg.bytes := by
  refine ⟨?_, decode_bytes, ?_, ServerMsg.bytes_injective⟩
  · intro c hc
    have hwhole : ∀ f ∈ [pack c.fields], frameFormat.Whole f := by
      intro f hf
      rcases List.mem_singleton.mp hf with rfl
      exact whole_fields c
    have hsplit := Format.split_join hwhole
    rw [List.flatten_singleton] at hsplit
    exact ⟨pack c.fields, enc_eq c, hsplit, decode_fields c hc⟩
  · intro c c' hc hc' h
    rw [enc_eq, enc_eq] at h
    have hbytes := Option.some.inj h
    have hmeans := decode_fields c' hc'.inRange
    rw [← hbytes] at hmeans
    exact means_injective hc hc' (decode_fields c hc.inRange) hmeans

theorem wire_format_input :
    (∃ f, enc (.input 7 (-1) 1 true false) = some f ∧ frameFormat.split f = ⟨[f], [], false⟩ ∧
      (Call.input 7 (-1) 1 true false).Means (ClientMsg.decode f)) ∧
    enc .join ≠ enc (.ping 0) := by
  constructor
  · exact wire_format.1 (.input 7 (-1) 1 true false) ⟨by decide, by decide⟩
  · intro h
    have hsame := wire_format.2.2.1 .join (.ping 0) trivial ⟨by decide, by decide⟩ h
    cases hsame

/-! ### The messages of the server model -/

theorem ServerMsg.length_bytes (m : ServerMsg) : m.bytes.length = m.sizeof := by
  rw [ServerMsg.bytes, length_pack, ServerMsg.fields, size_cons, size_cons, ServerMsg.sizeof,
    headerSize, ← Nat.add_assoc]
  rfl

theorem ServerMsg.sizeof_snapshot (serverTick : UInt32) (actorCount : UInt8)
    (lastInputSeq : Seat → UInt32) (actors : Slot → SnapActor) :
    (ServerMsg.snapshot serverTick actorCount lastInputSeq actors).sizeof = 165 := by
  have hseqs := size_flatMap (w := 4) (fun i => [u32 (lastInputSeq i)]) (fun _ => rfl)
    (List.finRange 4)
  have hrecords := size_flatMap (w := 10) (fun i => (actors i).fields) (fun _ => rfl)
    (List.finRange 14)
  rw [ServerMsg.sizeof, ServerMsg.body, size_append, size_append, hseqs, hrecords,
    List.length_finRange, List.length_finRange]
  rfl

/-- The model's size of a message is the length of its struct. -/
theorem Msg.length_bytes (m : Msg) : m.bytes.length = m.size := by
  cases m with
  | echo frame => rfl
  | joinOk actorId roomId serverTick => exact ServerMsg.length_bytes _
  | joinFail reason => exact ServerMsg.length_bytes _
  | snapshot room snap =>
    exact (ServerMsg.length_bytes _).trans (ServerMsg.sizeof_snapshot ..)
  | pong clientTimeUs serverTick tickRemainUs => exact ServerMsg.length_bytes _
  | roomEvent kind actorId roomId spawnQX spawnQY => exact ServerMsg.length_bytes _

theorem ServerMsg.sizeof_le (m : ServerMsg) : m.sizeof ≤ 165 := by
  cases m with
  | snapshot serverTick actorCount lastInputSeq actors =>
    exact Nat.le_of_eq (ServerMsg.sizeof_snapshot ..)
  | _ => exact Nat.le_of_ble_eq_true rfl

/-- The size in the header is the size of the struct. -/
theorem ServerMsg.whole (m : ServerMsg) : frameFormat.Whole m.bytes := by
  have hle := m.sizeof_le
  have hsize : m.sizeof = 2 + size (u16 m.type :: m.body) := by
    rw [ServerMsg.sizeof, size_cons, headerSize, ← Nat.add_assoc]
    rfl
  apply whole_pack
  · rfl
  · rw [← hsize]
    exact UInt16.toNat_ofNat_of_lt' (Nat.lt_of_le_of_lt hle (by decide))
  · exact Nat.le_add_right ..
  · omega

/-- Every message is a whole frame, an echo because it was one when it came. -/
theorem Msg.whole (m : Msg) (h : ∀ f, m = .echo f → frameFormat.Whole f) :
    frameFormat.Whole m.bytes := by
  cases m with
  | echo frame => exact h frame rfl
  | joinOk actorId roomId serverTick => exact ServerMsg.whole _
  | joinFail reason => exact ServerMsg.whole _
  | snapshot room snap => exact ServerMsg.whole _
  | pong clientTimeUs serverTick tickRemainUs => exact ServerMsg.whole _
  | roomEvent kind actorId roomId spawnQX spawnQY => exact ServerMsg.whole _

end BeltServer
