import Gday.Encryption.Integrity
import Gday.Encryption.RoundTrip
import Gday.Encryption.EndOfStream
import Gday.Encryption.Hostile
import Gday.Encryption.PeerSession
import Gday.Encryption.FalseEnd
import Gday.Encryption.LateFailure
import Gday.Encryption.EndlessPoll
import Gday.Chat.DownloadFolder
import Gday.HolePunch.ContactExchange
import Gday.HolePunch.MessageSizes
import Gday.HolePunch.InterleavedMessages
import Gday.HolePunch.Agreement
import Gday.HolePunch.PeerAuthentication
import Gday.HolePunch.PeerAgreement
import Gday.HolePunch.RoomIsolation
import Gday.HolePunch.StaleConnections
import Gday.HolePunch.Joiners
import Gday.HolePunch.RateLimiter
import Gday.Chat.OnlyNewFiles
import Gday.Chat.MessageFraming
import Gday.Chat.TransferExact
import Gday.Chat.AnnouncedSizes
import Gday.Chat.KeptSizes
import Gday.Chat.OwnFrame
import Gday.Chat.ListedFiles
import Gday.Cli.RoomCodes
import Gday.Chat.OfferTotals
import Gday.Chat.WholeSession
import Gday.Chat.UnderAttack
import Gday.Encryption.LastByte
import Gday.HolePunch.RegistrationEnds
import Gday.Chat.CopiedTree
import Gday.Chat.Retries
import Gday.Chat.ReadMessages
import Gday.HolePunch.ReadMessages
import Gday.HolePunch.AnyBytes
import Gday.Encryption.SameBytes
import Gday.HolePunch.RoomCapacity
import Gday.Encryption.WireOverhead
import Gday.HolePunch.Transcripts
import Gday.HolePunch.ServedOnce
