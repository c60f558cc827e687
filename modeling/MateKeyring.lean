import MateKeyring.Rpc.Attributes
import MateKeyring.Mate2.Tables
import MateKeyring.Mate2.Locked
import MateKeyring.Secret.LockedSearch
import MateKeyring.Secret.RoundTrip
import MateKeyring.Gkm.Rollback
import MateKeyring.Wrap.Disconnect
import MateKeyring.Control.Client
import MateKeyring.Gpg.Discipline
import MateKeyring.Secret.LiveSearch
import MateKeyring.Ssh.Robustness
import MateKeyring.Egg.SecureRoom
import MateKeyring.Dbus.ObjectPath
import MateKeyring.Gck.Uri
import MateKeyring.Asn1x.RawElements
import MateKeyring.Asn1x.ConstructedStrings
import MateKeyring.Gkm.DurableWrite
import MateKeyring.Mate2.Torn
import MateKeyring.Rpc.Validation
import MateKeyring.Mate2.UniqueEntry
import MateKeyring.Secret.FieldNames
import MateKeyring.Gkm.DataSexp
import MateKeyring.Gkm.RsaRelations
import MateKeyring.Egg.Pkcs12Rounds
import MateKeyring.Egg.PemScan
import MateKeyring.Secret.BinarySafety
import MateKeyring.Egg.SimpleKeys
import MateKeyring.Egg.HexCodec
import MateKeyring.Secret.SavedFields
import MateKeyring.Asn1x.TimeValues
import MateKeyring.Egg.Hkdf
import MateKeyring.Gpg.Assuan
import MateKeyring.Gkm.Handles
import MateKeyring.Gkm.Setters
import MateKeyring.Asn1x.OidLookup
import MateKeyring.Asn1x.Sizes
import MateKeyring.Gkm.KeyWrapping
import MateKeyring.Ssh.KeyLine
import MateKeyring.Gkm.FileTracker
import MateKeyring.Egg.Dh
import MateKeyring.Gkm.Timers
import MateKeyring.Gkm.DhMechanism
import MateKeyring.Asn1x.OidWriter
import MateKeyring.Rpc.Mechanisms
import MateKeyring.Lib.Agree
import MateKeyring.Asn1x.Bounds
