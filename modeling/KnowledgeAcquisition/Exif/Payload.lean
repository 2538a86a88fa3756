/-!
# An Exif payload

`build_pure_exif_payload` of `laboratory/cpp/ThirdpartyUnitTest/exif/02_write_exif.cpp`. Strings are lists of their bytes.
-/

namespace KnowledgeAcquisition.Exif

def pushUint16Le (vec : List UInt8) (val : UInt16) : List UInt8 :=
  vec ++ [(val &&& 0xFF).toUInt8, ((val >>> 8) &&& 0xFF).toUInt8]

def pushUint32Le (vec : List UInt8) (val : UInt32) : List UInt8 :=
  vec ++ [(val &&& 0xFF).toUInt8, ((val >>> 8) &&& 0xFF).toUInt8, ((val >>> 16) &&& 0xFF).toUInt8,
    ((val >>> 24) &&& 0xFF).toUInt8]

def componentCount (text : List UInt8) : UInt32 := UInt32.ofNat (text.length + 1)

def pushTag (payload : List UInt8) (tag : UInt16) (text : List UInt8) (stringDataOffset : UInt32) : List UInt8 :=
  let payload := pushUint16Le payload tag
  let payload := pushUint16Le payload 2
  let payload := pushUint32Le payload (componentCount text)
  pushUint32Le payload stringDataOffset

def buildPureExifPayload (make model software copyright dateTime : List UInt8) : List UInt8 :=
  let payload : List UInt8 := [0x49, 0x49, 0x2A, 0x00]
  let payload := pushUint32Le payload 0x08
  let numFieldsIfd0 : UInt16 := 5
  let payload := pushUint16Le payload numFieldsIfd0
  let stringDataOffset : UInt32 := 74
  let payload := pushTag payload 0x010F make stringDataOffset
  let stringDataOffset := stringDataOffset + componentCount make
  let payload := pushTag payload 0x0110 model stringDataOffset
  let stringDataOffset := stringDataOffset + componentCount model
  let payload := pushTag payload 0x0131 software stringDataOffset
  let stringDataOffset := stringDataOffset + componentCount software
  let payload := pushTag payload 0x8298 copyright stringDataOffset
  let stringDataOffset := stringDataOffset + componentCount copyright
  let payload := pushTag payload 0x0132 dateTime stringDataOffset
  let payload := pushUint32Le payload 0
  let payload := payload ++ make ++ [0]
  let payload := payload ++ model ++ [0]
  let payload := payload ++ software ++ [0]
  let payload := payload ++ copyright ++ [0]
  payload ++ dateTime ++ [0]

end KnowledgeAcquisition.Exif
