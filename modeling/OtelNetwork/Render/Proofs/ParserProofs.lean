import OtelNetwork.Render.Parser
import OtelNetwork.Render.Proofs.PerfectHashProofs

/-!
# What `handle` reads, and the registry `add_message` builds

`handle` on a buffer of at least 8 bytes reads the buffer as a timestamp's bytes and a body; the
body starts with `_rpc_id`, and the message is the body's first `need` bytes, where `need` is the
fixed size or the `_len` of a dynamic message (`Size.need`). From that:

* `handle_eq_ok_iff`: `handle` answers a message exactly when the buffer is the timestamp, the
  message and anything after it, the bytes after the timestamp start with a registered
  `_rpc_id`, and the message has the length its metadata gives (`Size.Fits`);
* `handle_append`: `BufferTooSmall` is the only answer that more bytes change, and from every
  buffer some more bytes get another answer;
* `registered_parser_dispatch`: for a hash into the capacity that is injective on the registered
  ids, registration from `Parser::new` succeeds and the parser's answers are those of the list
  of registrations;
* `generatedParser_dispatch`: the hash that the generator emits for an app's rpc ids is such a
  hash, so an app's parser built with it dispatches every message of the app.
-/

namespace OtelNetwork.RenderParser

open RustSem PerfectHashMap

variable {V : Type}

/-- The message `msg` has the length its size gives: the fixed size, or a dynamic message's
    `_len`, which counts the whole message and is at least 4. -/
def Size.Fits (o : Endian) : Size → List UInt8 → Prop
  | .fixed n, msg => msg.length = n.val
  | .dynamic, msg => 4 ≤ msg.length ∧ msg.length < 2 ^ 16 ∧
      (msg.take 4).drop 2 = o.u16ToBytes (UInt16.ofNat msg.length)

/-- The length of the message at the front of `body`, the bytes after the timestamp, for a
    message of size `size` and id `id`; or the error `handle` answers before it has it. -/
def Size.need (o : Endian) (id : UInt16) : Size → List UInt8 → Except Error Nat
  | .fixed n, body => if body.length < n.val then .error .bufferTooSmall else .ok n.val
  | .dynamic, body =>
    if body.length < 4 then .error .bufferTooSmall
    else
      let len := o.u16FromBytes ((body.take 4).drop 2)
      if len < 4 then .error (.invalidLength id len)
      else if body.length < len.toNat then .error .bufferTooSmall
      else .ok len.toNat

/-- The longest message of a size. -/
def Size.bound : Size → Nat
  | .fixed n => n.val
  | .dynamic => 2 ^ 16 - 1

/-! ## Message lengths -/

section Need

variable (o : Endian) (id : UInt16)

theorem need_eq_ok_iff (size : Size) (body : List UInt8) (n : Nat) :
    size.need o id body = .ok n ↔ n ≤ body.length ∧ size.Fits o (body.take n) := by
  cases size with
  | fixed m =>
    simp only [Size.need, Size.Fits, List.length_take]
    split_ifs with hm
    · simp only [false_iff]
      omega
    · simp only [Except.ok.injEq]
      omega
  | dynamic =>
    -- `_len` is the body's bytes 2 and 3; a message of `n` bytes carries `n` there
    have hfield : 4 ≤ body.length → ∀ n, (n < 2 ^ 16 ∧
        (body.take 4).drop 2 = o.u16ToBytes (UInt16.ofNat n) ↔
          (o.u16FromBytes ((body.take 4).drop 2)).toNat = n) := by
      intro h4 n
      constructor
      · rintro ⟨hn, hb⟩
        rw [hb, Endian.u16FromBytes_u16ToBytes, UInt16.toNat_ofNat_of_lt' hn]
      · rintro rfl
        refine ⟨UInt16.toNat_lt _, ?_⟩
        rw [UInt16.ofNat_toNat, Endian.u16ToBytes_u16FromBytes]
        simp only [List.length_drop, List.length_take]
        omega
    simp only [Size.Fits, List.take_take]
    constructor
    · intro h
      simp only [Size.need] at h
      split_ifs at h with h4 hl hb
      cases h
      have hle : (o.u16FromBytes ((body.take 4).drop 2)).toNat ≤ body.length := by omega
      have hl4 : 4 ≤ (o.u16FromBytes ((body.take 4).drop 2)).toNat := by
        rw [UInt16.lt_iff_toNat_lt] at hl
        simpa using hl
      rw [List.length_take_of_le hle, min_eq_left hl4]
      exact ⟨hle, hl4, (hfield (by omega) _).mpr rfl⟩
    · rintro ⟨hle, h4, h16, hb⟩
      rw [List.length_take_of_le hle] at h4 h16 hb
      rw [min_eq_left h4] at hb
      have hlen := (hfield (by omega) n).mp ⟨h16, hb⟩
      have hl : ¬ o.u16FromBytes ((body.take 4).drop 2) < 4 := by
        rw [UInt16.lt_iff_toNat_lt, hlen]
        simpa using h4
      simp only [Size.need]
      rw [if_neg (by omega), if_neg hl, if_neg (by omega), hlen]

/-- A length that is known stays known when bytes are appended. -/
theorem need_append (size : Size) {body : List UInt8} (more : List UInt8)
    (h : size.need o id body ≠ .error .bufferTooSmall) :
    size.need o id (body ++ more) = size.need o id body := by
  cases size with
  | fixed m =>
    simp only [Size.need] at h ⊢
    have hm : ¬ body.length < m := fun hm => h (if_pos hm)
    rw [if_neg hm, if_neg (by simp only [List.length_append]; omega)]
  | dynamic =>
    simp only [Size.need] at h ⊢
    have h4 : ¬ body.length < 4 := fun h4 => h (if_pos h4)
    rw [if_neg h4] at h
    rw [if_neg h4, if_neg (by simp only [List.length_append]; omega),
      List.take_append_of_le_length (by omega)]
    split_ifs at h ⊢ with hl hb hb' hb'
    · rfl
    · rfl
    · simp only [List.length_append] at hb
      omega
    · exact absurd rfl h
    · rfl

/-- A body as long as the longest message of its size has a known length. -/
theorem need_of_bound_le (size : Size) {body : List UInt8} (h : size.bound ≤ body.length) :
    size.need o id body ≠ .error .bufferTooSmall := by
  cases size with
  | fixed m =>
    simp only [Size.need, Size.bound] at h ⊢
    rw [if_neg (by omega)]
    nofun
  | dynamic =>
    simp only [Size.need, Size.bound] at h ⊢
    have hlt := UInt16.toNat_lt (o.u16FromBytes ((body.take 4).drop 2))
    rw [if_neg (by omega)]
    split_ifs with hl hb
    · nofun
    · omega
    · nofun

end Need

/-! ## Frames -/

section Frame

variable (o : Endian) (ts : UInt64) (body : List UInt8)

theorem frame_slice (k : Nat) : ((o.u64ToBytes ts ++ body).take (8 + k)).drop 8 = body.take k := by
  have h8 : (o.u64ToBytes ts).length = 8 := o.length_u64ToBytes ts
  rw [List.drop_take, Nat.add_sub_cancel_left, ← h8, List.drop_left]

theorem frame_timestamp : o.u64FromBytes ((o.u64ToBytes ts ++ body).take 8) = ts := by
  have h8 : (o.u64ToBytes ts).length = 8 := o.length_u64ToBytes ts
  rw [← h8, List.take_left, Endian.u64FromBytes_u64ToBytes]

/-- A buffer of at least 8 bytes is a timestamp's bytes and a body. -/
theorem eq_frame {data : List UInt8} (h : 8 ≤ data.length) :
    data = o.u64ToBytes (o.u64FromBytes (data.take 8)) ++ data.drop 8 := by
  rw [Endian.u64ToBytes_u64FromBytes _ (by simp only [List.length_take]; omega),
    List.take_append_drop]

end Frame

/-! ## `handle` -/

section Handle

variable (p : Parser V) (o : Endian)

theorem handle_of_lt {data : List UInt8} (h : data.length < 10) :
    p.handle o data = .error .bufferTooSmall := by
  simp only [Parser.handle]
  rw [if_pos h]
  rfl

/-- `handle` on a timestamp and a body of at least two bytes: the body's first two bytes are the
    id, and the message is the body's first `need` bytes. -/
theorem handle_frame (ts : UInt64) {body : List UInt8} (hb : 2 ≤ body.length) :
    p.handle o (o.u64ToBytes ts ++ body) =
      match p.map.get (o.u16FromBytes (body.take 2)).toUInt32 with
      | none => .error (.messageNotRegistered (o.u16FromBytes (body.take 2)))
      | some e => (e.metadata.size.need o (o.u16FromBytes (body.take 2)) body).map
          fun n => ⟨body.take n, e.value, ts⟩ := by
  have h10 : ((o.u64ToBytes ts ++ body).take 10).drop 8 = body.take 2 := frame_slice o ts body 2
  have h12 : ((o.u64ToBytes ts ++ body).take 12).drop 10 = (body.take 4).drop 2 := by
    rw [show (12 : Nat) = 8 + 4 from rfl, show (10 : Nat) = 8 + 2 from rfl, ← List.drop_drop,
      frame_slice]
  simp only [Parser.handle, frame_timestamp, h10, List.length_append, Endian.length_u64ToBytes]
  rw [if_neg (by omega)]
  rcases hget : p.map.get (o.u16FromBytes (body.take 2)).toUInt32 with _ | e
  · rfl
  · simp only [pure_eq_ok, ok_bind]
    -- the size's branches, read through the body
    cases e.metadata.size with
    | fixed n =>
      simp only [Size.need, frame_slice]
      by_cases hn : body.length < n
      · rw [if_pos (by omega), if_pos hn]
        rfl
      · rw [if_neg (by omega), if_neg hn]
        rfl
    | dynamic =>
      simp only [Size.need, h12, frame_slice]
      by_cases h4 : body.length < 4
      · rw [if_pos (by omega), if_pos h4]
        rfl
      · rw [if_neg (by omega), if_neg h4]
        split_ifs <;> first | rfl | omega

/-- `handle` answers a message exactly when the buffer is the timestamp, the message and
    anything after it, the bytes after the timestamp start with a registered id, and the message
    has the length that id's metadata gives. -/
theorem handle_eq_ok_iff (data : List UInt8) (r : HandleOk V) :
    p.handle o data = .ok r ↔
      ∃ id e rest, p.map.get id.toUInt32 = some e ∧ r.value = e.value ∧
        data = o.u64ToBytes r.timestamp ++ r.message ++ rest ∧
        (r.message ++ rest).take 2 = o.u16ToBytes id ∧ e.metadata.size.Fits o r.message := by
  constructor
  · intro h
    have h10 : 10 ≤ data.length := by
      by_contra hlt
      rw [handle_of_lt p o (by omega)] at h
      cases h
    obtain ⟨ts, body, rfl⟩ : ∃ ts body, data = o.u64ToBytes ts ++ body :=
      ⟨_, _, eq_frame o (by omega)⟩
    have hb : 2 ≤ body.length := by
      simp only [List.length_append, Endian.length_u64ToBytes] at h10
      omega
    rw [handle_frame p o ts hb] at h
    rcases hget : p.map.get (o.u16FromBytes (body.take 2)).toUInt32 with _ | e
    · rw [hget] at h
      cases h
    rw [hget] at h
    dsimp only at h
    rcases hn : e.metadata.size.need o (o.u16FromBytes (body.take 2)) body with err | n
    · rw [hn] at h
      cases h
    rw [hn] at h
    cases h
    -- the message is the body's first `n` bytes, and the rest of the body follows it
    obtain ⟨hle, hfits⟩ := (need_eq_ok_iff o _ _ body n).mp hn
    refine ⟨_, e, body.drop n, hget, rfl, by rw [List.append_assoc, List.take_append_drop], ?_,
      hfits⟩
    rw [List.take_append_drop, Endian.u16ToBytes_u16FromBytes]
    simp only [List.length_take]
    omega
  · rintro ⟨id, e, rest, hget, hval, hdata, hid, hfits⟩
    obtain ⟨msg, v, ts⟩ := r
    dsimp only at hval hdata hid hfits
    subst hval hdata
    have hb : 2 ≤ (msg ++ rest).length := by
      simpa using congrArg List.length hid
    have hread : o.u16FromBytes ((msg ++ rest).take 2) = id := by
      rw [hid, Endian.u16FromBytes_u16ToBytes]
    have hn : e.metadata.size.need o id (msg ++ rest) = .ok msg.length := by
      rw [need_eq_ok_iff, List.take_left]
      exact ⟨by simp, hfits⟩
    rw [List.append_assoc, handle_frame p o ts hb, hread, hget]
    dsimp only
    rw [hn]
    show Except.ok (⟨(msg ++ rest).take msg.length, e.value, ts⟩ : HandleOk V) = _
    rw [List.take_left]

/-- An answer other than `BufferTooSmall` stays when bytes are appended. -/
theorem handle_append_of_ne (data more : List UInt8)
    (h : p.handle o data ≠ .error .bufferTooSmall) :
    p.handle o (data ++ more) = p.handle o data := by
  have h10 : 10 ≤ data.length := by
    by_contra hlt
    exact h (handle_of_lt p o (by omega))
  obtain ⟨ts, body, rfl⟩ : ∃ ts body, data = o.u64ToBytes ts ++ body :=
    ⟨_, _, eq_frame o (by omega)⟩
  have hb : 2 ≤ body.length := by
    simp only [List.length_append, Endian.length_u64ToBytes] at h10
    omega
  rw [handle_frame p o ts hb] at h
  rw [List.append_assoc, handle_frame p o ts (by simp only [List.length_append]; omega),
    handle_frame p o ts hb, List.take_append_of_le_length hb]
  rcases hget : p.map.get (o.u16FromBytes (body.take 2)).toUInt32 with _ | e
  · rfl
  rw [hget] at h
  dsimp only at h ⊢
  have hne : e.metadata.size.need o (o.u16FromBytes (body.take 2)) body ≠ .error .bufferTooSmall :=
    fun hn => h (map_eq_error.mpr hn)
  rw [need_append o _ _ more hne]
  rcases hn : e.metadata.size.need o (o.u16FromBytes (body.take 2)) body with err | n
  · rfl
  -- the message lies inside the body, so the appended bytes are not read
  obtain ⟨hle, -⟩ := (need_eq_ok_iff o _ _ body n).mp hn
  show Except.ok (⟨(body ++ more).take n, e.value, ts⟩ : HandleOk V) = .ok ⟨body.take n, e.value, ts⟩
  rw [List.take_append_of_le_length hle]

/-- From every buffer, some appended bytes get an answer other than `BufferTooSmall`. -/
theorem handle_append_progress (data : List UInt8) :
    ∃ more, p.handle o (data ++ more) ≠ .error .bufferTooSmall := by
  -- ten bytes more give the id; then the longest message of its size
  by_cases h : p.handle o (data ++ List.replicate 10 0) = .error .bufferTooSmall
  · have h10 : 10 ≤ (data ++ List.replicate 10 0).length := by simp
    obtain ⟨ts, body, hpad⟩ : ∃ ts body, data ++ List.replicate 10 0 = o.u64ToBytes ts ++ body :=
      ⟨_, _, eq_frame o (by omega)⟩
    have hb : 2 ≤ body.length := by
      rw [hpad] at h10
      simp only [List.length_append, Endian.length_u64ToBytes] at h10
      omega
    rw [hpad, handle_frame p o ts hb] at h
    rcases hget : p.map.get (o.u16FromBytes (body.take 2)).toUInt32 with _ | e
    · rw [hget] at h
      cases h
    refine ⟨List.replicate 10 0 ++ List.replicate e.metadata.size.bound 0, ?_⟩
    rw [← List.append_assoc, hpad, List.append_assoc,
      handle_frame p o ts (by simp only [List.length_append]; omega),
      List.take_append_of_le_length hb, hget]
    dsimp only
    intro hmap
    exact need_of_bound_le o _ e.metadata.size (by simp) (map_eq_error.mp hmap)
  · exact ⟨List.replicate 10 0, h⟩

theorem need_ne_messageNotRegistered (size : Size) (id id' : UInt16) (body : List UInt8) :
    size.need o id body ≠ .error (.messageNotRegistered id') := by
  cases size with
  | fixed m =>
    simp only [Size.need]
    split_ifs <;> nofun
  | dynamic =>
    simp only [Size.need]
    split_ifs <;> nofun

/-- `handle` answers `MessageNotRegistered id` exactly when the buffer holds the id `id` after
    the timestamp and no entry is stored for it. -/
theorem handle_eq_messageNotRegistered_iff (data : List UInt8) (id : UInt16) :
    p.handle o data = .error (.messageNotRegistered id) ↔
      10 ≤ data.length ∧ o.u16FromBytes ((data.take 10).drop 8) = id ∧
        p.map.get id.toUInt32 = none := by
  by_cases h10 : data.length < 10
  · rw [handle_of_lt p o h10]
    simp only [Except.error.injEq, reduceCtorEq, false_iff]
    omega
  obtain ⟨ts, body, rfl⟩ : ∃ ts body, data = o.u64ToBytes ts ++ body :=
    ⟨_, _, eq_frame o (by omega)⟩
  have hb : 2 ≤ body.length := by
    simp only [List.length_append, Endian.length_u64ToBytes] at h10
    omega
  rw [handle_frame p o ts hb, frame_slice o ts body 2]
  rcases hget : p.map.get (o.u16FromBytes (body.take 2)).toUInt32 with _ | e
  · dsimp only
    constructor
    · rintro ⟨⟩
      exact ⟨by omega, rfl, hget⟩
    · rintro ⟨-, rfl, -⟩
      rfl
  · dsimp only
    constructor
    · intro h
      exact absurd (map_eq_error.mp h) (need_ne_messageNotRegistered o _ _ _ body)
    · rintro ⟨-, rfl, hnone⟩
      rw [hget] at hnone
      cases hnone

/-- What `handle` does with the bytes of a stream: it answers a message exactly for a buffer
    holding a timestamp and then a message of a registered id with the length its metadata
    gives, with the value stored for the id and the timestamp read; `BufferTooSmall` is the only
    answer that appended bytes change; and from every buffer some appended bytes get another
    answer. -/
theorem parser_handle_frames (data : List UInt8) :
    (∀ r, p.handle o data = .ok r ↔
      ∃ id e rest, p.map.get id.toUInt32 = some e ∧ r.value = e.value ∧
        data = o.u64ToBytes r.timestamp ++ r.message ++ rest ∧
        (r.message ++ rest).take 2 = o.u16ToBytes id ∧ e.metadata.size.Fits o r.message) ∧
    (∀ more, p.handle o data ≠ .error .bufferTooSmall →
      p.handle o (data ++ more) = p.handle o data) ∧
    ∃ more, p.handle o (data ++ more) ≠ .error .bufferTooSmall :=
  ⟨handle_eq_ok_iff p o data, handle_append_of_ne p o data, handle_append_progress p o data⟩

end Handle

/-! ## Registration -/

/-- The registry that the registrations `regs` make from `M`: each message's entry under its
    id. -/
def register (M : AbsMap (Entry V)) (regs : List (MessageMetadata × V)) : AbsMap (Entry V) :=
  regs.foldl (fun M r => Function.update M r.1.rpcId.toUInt32 (some ⟨r.1, r.2⟩)) M

/-- With distinct ids, the registry holds the registration of each id, and nothing else. -/
theorem register_apply (M : AbsMap (Entry V)) (regs : List (MessageMetadata × V))
    (hnodup : (regs.map fun r => r.1.rpcId).Nodup) (id : UInt16) :
    register M regs id.toUInt32 =
      match regs.find? fun r => r.1.rpcId = id with
      | some r => some ⟨r.1, r.2⟩
      | none => M id.toUInt32 := by
  induction regs generalizing M with
  | nil => rfl
  | cons r rest ih =>
    rw [List.map_cons, List.nodup_cons] at hnodup
    simp only [register, List.foldl_cons] at ih ⊢
    rw [ih _ hnodup.2, List.find?_cons]
    by_cases hr : r.1.rpcId = id
    · -- the id's only registration is the first
      have hrest : rest.find? (fun r => r.1.rpcId = id) = none := by
        rw [List.find?_eq_none]
        intro r' hr' hid
        exact hnodup.1 (hr ▸ List.mem_map.mpr ⟨r', hr', of_decide_eq_true hid⟩)
      simp only [hrest, hr, decide_true, Function.update_self]
    · have hkey : id.toUInt32 ≠ r.1.rpcId.toUInt32 := fun h => hr (UInt16.toUInt32_inj.mp h).symm
      simp only [hr, decide_false, Function.update_of_ne hkey]

section Registration

variable {cap : Nat} {hash : Key → UInt32} (hcap : ∀ k, (hash k).toNat < cap) (K : List Key)
  (hK : ∀ k₁ ∈ K, ∀ k₂ ∈ K, hash k₁ = hash k₂ → k₁ = k₂)
include hcap hK

/-- Registering messages whose ids, with those already registered, hash apart: no registration
    collides, and the map holds the registry they make. -/
theorem addMessages_represents (regs : List (MessageMetadata × V)) (p : Parser V)
    (M : AbsMap (Entry V)) (hr : Represents cap hash p.map M) (hM : ∀ k, (M k).isSome → k ∈ K)
    (hregs : ∀ r ∈ regs, r.1.rpcId.toUInt32 ∈ K) :
    ∃ p', p.addMessages regs = .ok p' ∧ Represents cap hash p'.map (register M regs) := by
  induction regs generalizing p M with
  | nil => exact ⟨p, rfl, hr⟩
  | cons r rest ih =>
    obtain ⟨hw, rfl, rfl⟩ := hr
    have hkey : r.1.rpcId.toUInt32 ∈ K := hregs r List.mem_cons_self
    obtain ⟨x, hs⟩ : ∃ x, p.map.slots[(p.map.hash r.1.rpcId.toUInt32).toNat]? = some x :=
      ⟨_, List.getElem?_eq_getElem (hw.length ▸ hcap _)⟩
    rcases hw.insert_spec hs ⟨r.1, r.2⟩ with ⟨k', hc, -⟩ | ⟨-, m', hins, hr'⟩
    · -- a collision is with another stored key of the same hash, which `K` rules out
      obtain ⟨hne, hh, hsome⟩ := hc
      exact absurd (hK k' (hM k' hsome) _ hkey hh) hne
    have hadd : p.addMessage r.1 r.2 =
        .ok ((Except.ok (p.map.get r.1.rpcId.toUInt32)).map (fun o => o.map Entry.value), ⟨m'⟩) := by
      simp only [Parser.addMessage, hins, ok_bind, pure_eq_ok]
    have hM' : ∀ k, (Function.update p.map.get r.1.rpcId.toUInt32
        (some (⟨r.1, r.2⟩ : Entry V)) k).isSome → k ∈ K := by
      intro k hk
      by_cases hkk : k = r.1.rpcId.toUInt32
      · exact hkk ▸ hkey
      · rw [Function.update_of_ne hkk] at hk
        exact hM k hk
    obtain ⟨p'', hrun, hr''⟩ :=
      ih ⟨m'⟩ _ hr' hM' (fun r' hr' => hregs r' (List.mem_cons_of_mem r hr'))
    refine ⟨p'', ?_, hr''⟩
    simp only [Parser.addMessages, hadd, ok_bind, hrun]

end Registration

/-- With distinct ids, the first registration of a registered message's id is that message's. -/
theorem find?_rpcId_of_mem {regs : List (MessageMetadata × V)}
    (hnodup : (regs.map fun r => r.1.rpcId).Nodup) {reg : MessageMetadata × V} (hmem : reg ∈ regs) :
    regs.find? (fun r => r.1.rpcId = reg.1.rpcId) = some reg := by
  have hsome : (regs.find? fun r => r.1.rpcId = reg.1.rpcId).isSome :=
    List.find?_isSome.mpr ⟨reg, hmem, by simp⟩
  obtain ⟨reg', hf⟩ := Option.isSome_iff_exists.mp hsome
  have hsame : reg' = reg := List.inj_on_of_nodup_map hnodup (List.mem_of_find?_eq_some hf) hmem
    (by simpa using List.find?_some hf)
  rw [hf, hsame]

/-- A parser registered from `Parser::new` with a hash into the capacity that is injective on the
    registered ids: the registrations succeed; `handle` answers a message exactly for a buffer
    holding a timestamp and then a message of a registered id with the length its metadata
    gives, and answers it with that registration's value; and it answers `MessageNotRegistered`
    exactly for a buffer holding an id that is not registered. -/
theorem registered_parser_dispatch (cap : Nat) (hash : Key → UInt32)
    (hcap : ∀ k, (hash k).toNat < cap) (regs : List (MessageMetadata × V))
    (hnodup : (regs.map fun r => r.1.rpcId).Nodup)
    (hinj : ∀ r₁ ∈ regs, ∀ r₂ ∈ regs,
      hash r₁.1.rpcId.toUInt32 = hash r₂.1.rpcId.toUInt32 → r₁.1.rpcId = r₂.1.rpcId) :
    ∃ p, (Parser.new cap hash).addMessages regs = .ok p ∧ ∀ (o : Endian) (data : List UInt8),
      (∀ r, p.handle o data = .ok r ↔
        ∃ md rest, (md, r.value) ∈ regs ∧ data = o.u64ToBytes r.timestamp ++ r.message ++ rest ∧
          (r.message ++ rest).take 2 = o.u16ToBytes md.rpcId ∧ md.size.Fits o r.message) ∧
      (∀ id, p.handle o data = .error (.messageNotRegistered id) ↔
        10 ≤ data.length ∧ o.u16FromBytes ((data.take 10).drop 8) = id ∧
          id ∉ regs.map fun r => r.1.rpcId) := by
  -- the registered ids hash apart
  have hK : ∀ k₁ ∈ regs.map (fun r => r.1.rpcId.toUInt32), ∀ k₂ ∈ regs.map (fun r => r.1.rpcId.toUInt32),
      hash k₁ = hash k₂ → k₁ = k₂ := by
    simp only [List.mem_map]
    rintro _ ⟨r₁, h₁, rfl⟩ _ ⟨r₂, h₂, rfl⟩ hh
    rw [hinj r₁ h₁ r₂ h₂ hh]
  obtain ⟨p, hrun, hr⟩ := addMessages_represents hcap _ hK regs (Parser.new cap hash) (fun _ => none)
    (represents_new cap hash) (fun _ h => by cases h) (fun r hr => List.mem_map_of_mem hr)
  have hget : ∀ id : UInt16, p.map.get id.toUInt32 =
      match regs.find? fun r => r.1.rpcId = id with
      | some r => some ⟨r.1, r.2⟩
      | none => none := by
    intro id
    rw [hr.get_eq]
    exact register_apply _ regs hnodup id
  refine ⟨p, hrun, fun o data => ⟨fun r => ?_, fun id => ?_⟩⟩
  · rw [handle_eq_ok_iff]
    constructor
    · rintro ⟨id, e, rest, hge, hval, hdata, hid, hfits⟩
      rw [hget] at hge
      rcases hf : regs.find? (fun r => r.1.rpcId = id) with _ | reg <;> rw [hf] at hge <;> cases hge
      have hid' : reg.1.rpcId = id := by simpa using List.find?_some hf
      refine ⟨reg.1, rest, ?_, hdata, hid' ▸ hid, hfits⟩
      rw [hval]
      exact List.mem_of_find?_eq_some hf
    · rintro ⟨md, rest, hmem, hdata, hid, hfits⟩
      refine ⟨md.rpcId, ⟨md, r.value⟩, rest, ?_, rfl, hdata, hid, hfits⟩
      rw [hget, find?_rpcId_of_mem hnodup hmem]
  · rw [handle_eq_messageNotRegistered_iff, hget]
    rcases hf : regs.find? (fun r => r.1.rpcId = id) with _ | reg
    · have hnot : id ∉ regs.map fun r => r.1.rpcId := by
        rw [List.find?_eq_none] at hf
        simp only [List.mem_map, not_exists, not_and]
        exact fun r hr hid => hf r hr (decide_eq_true hid)
      simp only [hf, hnot, not_false_eq_true, and_true]
    · have hin : id ∈ regs.map fun r => r.1.rpcId :=
        List.mem_map.mpr ⟨reg, List.mem_of_find?_eq_some hf, by simpa using List.find?_some hf⟩
      simp only [hf, hin, not_true_eq_false, and_false, reduceCtorEq]

/-! ## Parsers over the generated hash -/

/-- An id's map key is the `u32` of its number. -/
theorem rpcId_toUInt32 (id : UInt16) : id.toUInt32 = id.toNat.toUInt32 := by
  apply UInt32.toNat_inj.mp
  simp

/-- An app's parser built with the Rust function the generator emits for the app's rpc ids, over
    `hash_mask + 1` slots: registering one message per id succeeds; `handle` answers a message
    exactly for a buffer holding a timestamp and then a message of a registered id with the
    length its metadata gives, with that registration's value; and it answers
    `MessageNotRegistered` exactly for an id outside the app. -/
theorem generatedParser_dispatch (keys : List Nat) (hnodup : keys.Nodup)
    (hrange : ∀ k ∈ keys, k < 2 ^ 16) (hne : keys ≠ []) (ph : Render.PerfectHash)
    (hnew : Render.PerfectHash.new keys = .ok ph) (regs : List (MessageMetadata × V))
    (hids : regs.map (fun r => r.1.rpcId.toNat) = keys) :
    ∃ p, (Parser.new (ph.hashMask + 1) ph.rustHashFn).addMessages regs = .ok p ∧
      ∀ (o : Endian) (data : List UInt8),
        (∀ r, p.handle o data = .ok r ↔
          ∃ md rest, (md, r.value) ∈ regs ∧ data = o.u64ToBytes r.timestamp ++ r.message ++ rest ∧
            (r.message ++ rest).take 2 = o.u16ToBytes md.rpcId ∧ md.size.Fits o r.message) ∧
        (∀ id, p.handle o data = .error (.messageNotRegistered id) ↔
          10 ≤ data.length ∧ o.u16FromBytes ((data.take 10).drop 8) = id ∧ id.toNat ∉ keys) := by
  obtain ⟨hcap, hinj⟩ := Render.new_rustHashFn_spec hnodup hrange hne hnew
  have hmem : ∀ id : UInt16, id ∈ regs.map (fun r => r.1.rpcId) ↔ id.toNat ∈ keys := by
    intro id
    rw [← hids, List.mem_map, List.mem_map]
    constructor
    · rintro ⟨r, hr, rfl⟩
      exact ⟨r, hr, rfl⟩
    · rintro ⟨r, hr, h⟩
      exact ⟨r, hr, UInt16.toNat_inj.mp h⟩
  -- the registered ids are the generator's keys, on which its function is injective
  have hnodup' : (regs.map fun r => r.1.rpcId).Nodup := by
    refine List.Nodup.of_map UInt16.toNat ?_
    rw [List.map_map]
    exact hids ▸ hnodup
  have hinj' : ∀ r₁ ∈ regs, ∀ r₂ ∈ regs,
      ph.rustHashFn r₁.1.rpcId.toUInt32 = ph.rustHashFn r₂.1.rpcId.toUInt32 →
        r₁.1.rpcId = r₂.1.rpcId := by
    intro r₁ h₁ r₂ h₂ hh
    rw [rpcId_toUInt32, rpcId_toUInt32] at hh
    exact UInt16.toNat_inj.mp (hinj _ ((hmem _).mp (List.mem_map_of_mem h₁)) _
      ((hmem _).mp (List.mem_map_of_mem h₂)) hh)
  obtain ⟨p, hrun, hdisp⟩ := registered_parser_dispatch _ _ hcap regs hnodup' hinj'
  refine ⟨p, hrun, fun o data => ⟨(hdisp o data).1, fun id => ?_⟩⟩
  rw [(hdisp o data).2 id, hmem]

/-- The ids `2, 1, 3`, with a fixed, a dynamic and a one-field message. -/
theorem generatedParser_dispatch_of_three_ids :
    [2, 1, 3].Nodup ∧ (∀ k ∈ [2, 1, 3], k < 2 ^ 16) ∧ [2, 1, 3] ≠ [] ∧
    Render.PerfectHash.new [2, 1, 3] = .ok ⟨⟨3, 1, 2, 31, 3, 28, 7⟩, 0, 2654435761, .u8, [5, 0]⟩ ∧
    ([(MessageMetadata.newFixed 2 4 true, ()), (MessageMetadata.newDynamic 1 true, ()),
      (MessageMetadata.newFixed 3 2 true, ())].map fun r => r.1.rpcId.toNat) = [2, 1, 3] ∧
    ∃ p, (Parser.new (7 + 1) (Render.PerfectHash.rustHashFn
        ⟨⟨3, 1, 2, 31, 3, 28, 7⟩, 0, 2654435761, .u8, [5, 0]⟩)).addMessages
        [(MessageMetadata.newFixed 2 4 true, ()), (MessageMetadata.newDynamic 1 true, ()),
          (MessageMetadata.newFixed 3 2 true, ())] = .ok p ∧
      ∀ (o : Endian) (data : List UInt8),
        (∀ r, p.handle o data = .ok r ↔
          ∃ md rest, (md, r.value) ∈ [(MessageMetadata.newFixed 2 4 true, ()),
              (MessageMetadata.newDynamic 1 true, ()), (MessageMetadata.newFixed 3 2 true, ())] ∧
            data = o.u64ToBytes r.timestamp ++ r.message ++ rest ∧
            (r.message ++ rest).take 2 = o.u16ToBytes md.rpcId ∧ md.size.Fits o r.message) ∧
        (∀ id, p.handle o data = .error (.messageNotRegistered id) ↔
          10 ≤ data.length ∧ o.u16FromBytes ((data.take 10).drop 8) = id ∧
            id.toNat ∉ [2, 1, 3]) := by
  have hnew : Render.PerfectHash.new [2, 1, 3] =
      .ok ⟨⟨3, 1, 2, 31, 3, 28, 7⟩, 0, 2654435761, .u8, [5, 0]⟩ := by
    have hseed : Render.findSeed (Render.params [2, 1, 3]) [2, 1, 3] =
        .ok (0, Render.knuthA, [(0, [Render.mapKey 0 Render.knuthA 2]),
          (1, [Render.mapKey 0 Render.knuthA 1, Render.mapKey 0 Render.knuthA 3])]) := by
      decide
    rw [Render.PerfectHash.new, hseed, ok_bind]
    dsimp only
    rw [List.mergeSort_of_pairwise (by decide)]
    decide
  have hids : ([(MessageMetadata.newFixed 2 4 true, ()), (MessageMetadata.newDynamic 1 true, ()),
      (MessageMetadata.newFixed 3 2 true, ())].map fun r => r.1.rpcId.toNat) = [2, 1, 3] := by
    decide
  exact ⟨by decide, by decide, by decide, hnew, hids,
    generatedParser_dispatch [2, 1, 3] (by decide) (by decide) (by decide) _ hnew _ hids⟩

end OtelNetwork.RenderParser
