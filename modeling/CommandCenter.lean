import CommandCenter.Core.AdmissionBooks
import CommandCenter.Core.Ads
import CommandCenter.Core.Bridge
import CommandCenter.Core.BridgeIndex
import CommandCenter.Core.BridgeStability
import CommandCenter.Core.Channel
import CommandCenter.Core.ChannelBans
import CommandCenter.Core.ChannelDesignation
import CommandCenter.Core.ChannelFlags
import CommandCenter.Core.ChannelHistory
import CommandCenter.Core.ChannelInvariant
import CommandCenter.Core.ChannelNameGrant
import CommandCenter.Core.FloodTracker
import CommandCenter.Core.IpText
import CommandCenter.Core.KeyClaims
import CommandCenter.Core.Ladder
import CommandCenter.Core.Policy
import CommandCenter.Core.Session
import CommandCenter.Core.War3
import CommandCenter.Core.War3Votes
import CommandCenter.Crypto.Nls
import CommandCenter.Daemon.AdminLogin
import CommandCenter.Daemon.AdminRequest
import CommandCenter.Daemon.AdminRequestWhole
import CommandCenter.Daemon.BanStore
import CommandCenter.Daemon.Bans
import CommandCenter.Daemon.Beacon
import CommandCenter.Daemon.Chat
import CommandCenter.Daemon.ChatMoves
import CommandCenter.Daemon.ChatSessions
import CommandCenter.Daemon.Contract
import CommandCenter.Daemon.Fanout
import CommandCenter.Daemon.Footprint
import CommandCenter.Daemon.GameDirectory
import CommandCenter.Daemon.GameResults
import CommandCenter.Daemon.GameServerLink
import CommandCenter.Daemon.HostedGames
import CommandCenter.Daemon.JoinRequests
import CommandCenter.Daemon.Ladder
import CommandCenter.Daemon.LadderRecords
import CommandCenter.Daemon.LinkGenerations
import CommandCenter.Daemon.ListingRuns
import CommandCenter.Daemon.Listings
import CommandCenter.Daemon.Lobby
import CommandCenter.Daemon.LobbyAgreement
import CommandCenter.Daemon.LogonProof
import CommandCenter.Daemon.Moderation
import CommandCenter.Daemon.NameClaims
import CommandCenter.Daemon.Names
import CommandCenter.Daemon.Offerings
import CommandCenter.Daemon.OperatorNames
import CommandCenter.Daemon.ProductCeilings
import CommandCenter.Daemon.RealmConfinement
import CommandCenter.Daemon.RealmQuota
import CommandCenter.Daemon.RealmSeason
import CommandCenter.Daemon.RealmServer
import CommandCenter.Daemon.Rooms
import CommandCenter.Daemon.RosterConvergence
import CommandCenter.Daemon.RosterNotices
import CommandCenter.Daemon.RosterTracking
import CommandCenter.Daemon.Season
import CommandCenter.Daemon.SeasonEnd
import CommandCenter.Daemon.Server
import CommandCenter.Daemon.ServerParts
import CommandCenter.Daemon.Statstrings
import CommandCenter.Daemon.UserPage
import CommandCenter.Daemon.UserPageNames
import CommandCenter.Daemon.VersionGate
import CommandCenter.Data.Graphics
import CommandCenter.Data.ItemTypes
import CommandCenter.Data.Treasure
import CommandCenter.Data.TreasureRolls
import CommandCenter.Federation.Frame
import CommandCenter.Federation.FrameLimit
import CommandCenter.Federation.Link
import CommandCenter.Formats.Bni
import CommandCenter.Formats.BniCheck
import CommandCenter.Formats.BniRoundTrip
import CommandCenter.Formats.BuiltSave
import CommandCenter.Formats.D2s
import CommandCenter.Formats.Dc6
import CommandCenter.Formats.Dc6RoundTrip
import CommandCenter.Formats.Dcc
import CommandCenter.Formats.DccBoxes
import CommandCenter.Formats.DccCells
import CommandCenter.Formats.DccDirections
import CommandCenter.Formats.DccPixels
import CommandCenter.Formats.Gif
import CommandCenter.Formats.GifCodes
import CommandCenter.Formats.GifRoundTrip
import CommandCenter.Formats.IconList
import CommandCenter.Formats.IconPack
import CommandCenter.Formats.IconPackRoundTrip
import CommandCenter.Formats.ItemBits
import CommandCenter.Formats.ItemFields
import CommandCenter.Formats.ItemLists
import CommandCenter.Formats.ItemReadBack
import CommandCenter.Formats.ItemRoundTrip
import CommandCenter.Formats.Mpq
import CommandCenter.Formats.MpqWhole
import CommandCenter.Formats.Pkware
import CommandCenter.Formats.PkwareBits
import CommandCenter.Formats.PkwareStreams
import CommandCenter.Formats.Png
import CommandCenter.Formats.SaveRoundTrip
import CommandCenter.Formats.SimpleItems
import CommandCenter.Formats.Tga
import CommandCenter.Formats.TgaRoundTrip
import CommandCenter.Formats.Zip
import CommandCenter.Formats.ZipRoundTrip
import CommandCenter.GsLink.Messages
import CommandCenter.Import.ApplyAgain
import CommandCenter.Import.Characters
import CommandCenter.Import.DumpAccounts
import CommandCenter.Import.DumpLoss
import CommandCenter.Import.DumpRows
import CommandCenter.Import.DumpTables
import CommandCenter.Import.DumpText
import CommandCenter.Import.PlanAccounts
import CommandCenter.Import.Source
import CommandCenter.Library.Bits
import CommandCenter.Library.BoundedReceive
import CommandCenter.Library.CanonicalCode
import CommandCenter.Library.Closure
import CommandCenter.Library.CodeWords
import CommandCenter.Library.Lzw
import CommandCenter.Library.Notices
import CommandCenter.Library.Pattern
import CommandCenter.Library.Plurality
import CommandCenter.Library.Ranking
import CommandCenter.Library.ReadUntil
import CommandCenter.Library.Reads
import CommandCenter.Library.Requests
import CommandCenter.Library.Sessions
import CommandCenter.Library.StableDecoder
import CommandCenter.Library.UrlEncoded
import CommandCenter.Library.Weights
import CommandCenter.Library.Words
import CommandCenter.Proto.Bnftp
import CommandCenter.Proto.Chat
import CommandCenter.Proto.LineFraming
import CommandCenter.Proto.RecvBuf
import CommandCenter.Proto.Segmentation
import CommandCenter.Proto.Statstring
import CommandCenter.Rust.BTree
import CommandCenter.Rust.Chunks
import CommandCenter.Rust.Fields
import CommandCenter.Rust.Num
import CommandCenter.Rust.Slice
import CommandCenter.Storage.AccountNames
import CommandCenter.Storage.AttrSchema
import CommandCenter.Storage.BoundedLoss
import CommandCenter.Storage.Characters
import CommandCenter.Storage.FlushFailure
import CommandCenter.Storage.IndexIntegrity
import CommandCenter.Storage.SqliteReference
import CommandCenter.Storage.Transparency
import CommandCenter.Web.Markup
import CommandCenter.Web.Php
