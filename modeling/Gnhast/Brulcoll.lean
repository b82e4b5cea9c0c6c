import Gnhast.Lib.Double
import Gnhast.Lib.Layout
import Gnhast.Types

/-!
# The Brultech collector

The binary packets of the GreenEye monitor, as `brultech.h` lays them out, and what `brulcoll/collector.c` stores of them. Numbers
of two bytes are read as the platform keeps them and then swapped or not; those of three and five bytes are put together by hand,
the lowest byte first.
-/

namespace Gnhast.Brulcoll

/-- A `uint16_t` as it lies in memory. -/
abbrev Bytes2 : Type := Fin 2 → BitVec 8

/-- `wattsec_t` -/
abbrev Wattsec : Type := Fin 5 → BitVec 8

/-- `threebyte_t` -/
abbrev Threebyte : Type := Fin 3 → BitVec 8

/-- `gem_polar32_t` and `gem_polar48dt_t`, which differ in how many channels they have, how much is reserved behind the device
id, and what stands in front of the footer. -/
structure GemPolar (channels reserved tail : Nat) where
  header : Fin 2 → BitVec 8
  hformat : BitVec 8
  voltage : Bytes2
  channel : Fin channels → Wattsec
  polar : Fin channels → Wattsec
  serial : Bytes2
  res1 : BitVec 8
  devid : BitVec 8
  res2 : Fin reserved → BitVec 8
  seconds : Threebyte
  pulse : Fin 4 → Threebyte
  temp : Fin 8 → Bytes2
  tail : Fin tail → BitVec 8
  footer : Fin 2 → BitVec 8
  checksum : BitVec 8

/-- `gem_polar32_t`, with the reserved `res3` in front of the footer. -/
abbrev GemPolar32 : Type := GemPolar 32 64 2

/-- `gem_polar48dt_t`, with the date in front of the footer. -/
abbrev GemPolar48dt : Type := GemPolar 48 96 6

/-- Some bytes in a row. -/
def bytes (n : Nat) : Layout (BitVec 8) (Fin n → BitVec 8) := Layout.array n Layout.byte

/-- How a packet lies in memory. -/
def GemPolar.layout (c r t : Nat) : Layout (BitVec 8) (GemPolar c r t) :=
  ((bytes 2).prod (Layout.byte.prod ((bytes 2).prod ((Layout.array c (bytes 5)).prod ((Layout.array c (bytes 5)).prod
    ((bytes 2).prod (Layout.byte.prod (Layout.byte.prod ((bytes r).prod ((bytes 3).prod ((Layout.array 4 (bytes 3)).prod
    ((Layout.array 8 (bytes 2)).prod ((bytes t).prod ((bytes 2).prod Layout.byte)))))))))))))).map
    (fun (header, hformat, voltage, channel, polar, serial, res1, devid, res2, seconds, pulse, temp, tail, footer, checksum) =>
      { header, hformat, voltage, channel, polar, serial, res1, devid, res2, seconds, pulse, temp, tail, footer, checksum })
    (fun g => (g.header, g.hformat, g.voltage, g.channel, g.polar, g.serial, g.res1, g.devid, g.res2, g.seconds, g.pulse, g.temp,
      g.tail, g.footer, g.checksum))
    (fun _ => rfl)

example : (GemPolar.layout 32 64 2).size = 429 := rfl

example : (GemPolar.layout 48 96 6).size = 625 := rfl

/-- `brulconf_t` -/
structure Brulconf where
  nrofchannels : BitVec 32
  validtemp : BitVec 32
  validpulse : BitVec 32
  serial : BitVec 32

/-- `bruldata_t`, but for the amperes, which these packets do not have. -/
structure Bruldata where
  channel : Fin 48 → BitVec 64
  polar : Fin 48 → BitVec 64
  voltage : ℚ
  seconds : BitVec 32
  temp : Fin 8 → ℚ
  pulse : Fin 4 → BitVec 32
  serial : BitVec 32

/-- The packets that have come in, and `bruldata`: the values before the last packet and those of the last packet. -/
structure Brul where
  input : List (BitVec 8)
  prev : Bruldata
  cur : Bruldata

/-! ## Numbers -/

/-- `CONV_WATTSEC` -/
def convWattsec (x : Wattsec) : BitVec 64 :=
  (x 0).setWidth 64 + (x 1).setWidth 64 <<< 8 + (x 2).setWidth 64 <<< 16 + (x 3).setWidth 64 <<< 24 + (x 4).setWidth 64 <<< 32

/-- `CONV_THREE` -/
def convThree (x : Threebyte) : BitVec 64 := (x 0).setWidth 64 + (x 1).setWidth 64 <<< 8 + (x 2).setWidth 64 <<< 16

/-- `bswap16` -/
def bswap16 (x : BitVec 16) : BitVec 16 := (x <<< 8 &&& 0xff00#16) ||| (x >>> 8 &&& 0x00ff#16)

/-- What a platform reads in two bytes, one that keeps the lowest byte first or last. -/
def uint16 (littleE : Bool) (b : Bytes2) : BitVec 16 := if littleE then b 1 ++ b 0 else b 0 ++ b 1

/-- `LETOH16` -/
def letoh16 (littleE : Bool) (x : BitVec 16) : BitVec 16 := if littleE then x else bswap16 x

/-- `BETOH16` -/
def betoh16 (littleE : Bool) (x : BitVec 16) : BitVec 16 := if littleE then bswap16 x else x

/-! ## Packets -/

variable (F : Doubles) (littleE : Bool)

/-- One round of the loop over the channels. -/
def convChannel {c r t : Nat} (gemdata : GemPolar c r t) (d : Bruldata) (i : Nat) : Except Fault Bruldata :=
  if h : i < c ∧ i < 48 then
    .ok { d with
      channel := Function.update d.channel ⟨i, h.2⟩ (convWattsec (gemdata.channel ⟨i, h.1⟩))
      polar := Function.update d.polar ⟨i, h.2⟩ (convWattsec (gemdata.polar ⟨i, h.1⟩)) }
  else .error .bufferOverflow

/-- A handler of packets with polarized counters, which takes the two bytes of a temperature as `temp16` does. Half of a number of
sixteen bits is a double. -/
def brulHandlePolar (c r t : Nat) (temp16 : Bool → BitVec 16 → BitVec 16) (brulconf : Brulconf) (b : Brul) : Except Fault Brul :=
  let gemdata := (GemPolar.layout c r t).decode b.input
  let input := b.input.drop (GemPolar.layout c r t).size
  if gemdata.footer 0 ≠ 0xFF ∨ gemdata.footer 1 ≠ 0xFE then .ok { b with input }
  else
    ((List.range brulconf.nrofchannels.toInt.toNat).foldlM (convChannel gemdata) b.cur).map fun d =>
      { input, prev := b.cur
        cur := { d with
          voltage := F.round ((betoh16 littleE (uint16 littleE gemdata.voltage)).toNat / 10)
          seconds := (convThree gemdata.seconds).setWidth 32
          serial := (betoh16 littleE (uint16 littleE gemdata.serial)).setWidth 32
          temp := fun i =>
            if brulconf.validtemp.getLsbD i then (temp16 littleE (uint16 littleE (gemdata.temp i))).toNat / 2 else d.temp i
          pulse := fun i => if brulconf.validpulse.getLsbD i then (convThree (gemdata.pulse i)).setWidth 32 else d.pulse i } }

/-- `brul_handle_type7` -/
def brulHandleType7 : Brulconf → Brul → Except Fault Brul := brulHandlePolar F littleE 32 64 2 letoh16

/-- `brul_handle_type5` -/
def brulHandleType5 : Brulconf → Brul → Except Fault Brul := brulHandlePolar F littleE 48 96 6 betoh16

end Gnhast.Brulcoll
